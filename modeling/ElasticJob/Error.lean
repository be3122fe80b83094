/-!
Why an operation on a job is refused. Each constructor is a cause; the wording is in one function.
-/

namespace ElasticJob

inductive JobError where
  | invalidArgument (detail : String)
  | duplicateKey (detail : String)
  | invalidState (detail : String)
  | serialization (component : String) (key : Option String) (detail : String)
  | wouldCycle (source target : String)
  | vertexNotFound (name : String)
  | groupNotFound (name : String)
  | aborted (detail : String)
  | other (detail : String)
  deriving DecidableEq, Repr

namespace JobError

def message : JobError → String
  | invalidArgument detail => "invalid argument: " ++ detail
  | duplicateKey detail => "duplicate key: " ++ detail
  | invalidState detail => "invalid state: " ++ detail
  | serialization component key detail =>
      let place := match key with
        | some key => s!" at key `{key}`"
        | none => ""
      s!"serialization failure in `{component}`{place}: {detail}"
  | wouldCycle source target => s!"edge {source} -> {target} would cycle"
  | vertexNotFound name => s!"vertex `{name}` not found"
  | groupNotFound name => s!"vertex group `{name}` not found"
  | aborted detail => "aborted: " ++ detail
  | other detail => detail

def kind : JobError → String
  | invalidArgument _ => "InvalidArgument"
  | duplicateKey _ => "DuplicateKey"
  | invalidState _ => "InvalidState"
  | serialization _ _ _ => "Serialization"
  | wouldCycle _ _ => "WouldCycle"
  | vertexNotFound _ => "VertexNotFound"
  | groupNotFound _ => "GroupNotFound"
  | aborted _ => "Aborted"
  | other _ => "Other"

def isInvalidArgument : JobError → Bool
  | invalidArgument _ => true
  | _ => false

def isDuplicateKey : JobError → Bool
  | duplicateKey _ => true
  | _ => false

def isInvalidState : JobError → Bool
  | invalidState _ => true
  | _ => false

end JobError

theorem bind_eq_ok_iff {ε α β : Type} {first : Except ε α} {next : α → Except ε β} {result : β} :
    first >>= next = .ok result ↔ ∃ value, first = .ok value ∧ next value = .ok result := by
  cases first <;> simp [bind, Except.bind]

theorem map_eq_ok_iff {ε α β : Type} {first : Except ε α} {shape : α → β} {result : β} :
    first.map shape = .ok result ↔ ∃ value, first = .ok value ∧ shape value = result := by
  cases first <;> simp [Except.map]

theorem toOption_eq_some_iff {ε α : Type} {attempt : Except ε α} {result : α} :
    attempt.toOption = some result ↔ attempt = .ok result := by
  cases attempt <;> simp [Except.toOption]

theorem foldlM_keeps {ε α σ : Type} {step : σ → α → Except ε σ} (property : σ → Prop)
    (items : List α)
    (keeps : ∀ item ∈ items, ∀ before after, step before item = .ok after →
      property before → property after)
    {first last : σ} (done : items.foldlM step first = .ok last) (holds : property first) :
    property last := by
  induction items generalizing first with
  | nil =>
      cases done
      exact holds
  | cons item rest ih =>
      obtain ⟨next, stepped, later⟩ := bind_eq_ok_iff.mp done
      exact ih (fun other member => keeps other (List.mem_cons_of_mem _ member)) later
        (keeps item List.mem_cons_self first next stepped holds)

end ElasticJob
