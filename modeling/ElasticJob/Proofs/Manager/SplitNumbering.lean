import ElasticJob.Proofs.Manager.InitializerStream

/-!
What a manager hears of an initializer. Splits are told in the order in which they were emitted and
numbered without a gap, whatever directives stand between them; the first directive is told between
the same splits, and no other one is; and the stream ends with the completion of the input, or is
nothing but its failure.
-/

namespace ElasticJob

def InitializerEvent.payload? : InitializerEvent → Option Bytes
  | .setParallelism _ => none
  | .dataInformation payload => some payload

def payloads (events : List InitializerEvent) : List Bytes :=
  events.filterMap InitializerEvent.payload?

namespace ManagerEvent

def split? : ManagerEvent → Option (Bytes × Nat)
  | .dataInformation _ index payload => some (payload, index.toNat)
  | _ => none

def directive? : ManagerEvent → Option UInt32
  | .setParallelism _ tasks => some tasks
  | _ => none

def isEnd : ManagerEvent → Bool
  | .inputInitialized _ | .inputFailed _ _ => true
  | _ => false

end ManagerEvent

structure Reports (input : String) (events : List InitializerEvent) (told : List ManagerEvent) :
    Prop where
  named : ∀ event ∈ told, event.input? = some input
  ended : ∃ front, told = front ++ [.inputInitialized input] ∧ ∀ event ∈ front, event.isEnd = false
  numbered : told.filterMap ManagerEvent.split? = (payloads events).zipIdx
  undirected : (∀ event ∈ events, event.directive? = none) → ∀ event ∈ told, event.directive? = none
  /-- The first directive stands behind the splits that were emitted before it, and is the only
  one. -/
  directed : ∀ early tasks late, events = early ++ .setParallelism tasks :: late →
    (∀ event ∈ early, event.directive? = none) →
    ∃ before after, told = before ++ .setParallelism input tasks :: after ∧
      (∀ event ∈ before ++ after, event.directive? = none) ∧
      before.filterMap ManagerEvent.split? = (payloads early).zipIdx

section Numbering

variable (input : String)

theorem numberEvents_split (index : Nat) (directed : Bool) (events : List InitializerEvent)
    (few : index + (payloads events).length ≤ UInt32.size) :
    (numberEvents input index directed events).filterMap ManagerEvent.split? =
      (payloads events).zipIdx index := by
  induction events generalizing index directed with
  | nil => rfl
  | cons first rest ih =>
      cases first with
      | dataInformation payload =>
          have shape : payloads (.dataInformation payload :: rest) = payload :: payloads rest := rfl
          rw [shape, List.length_cons] at few
          have number : (UInt32.ofNat index).toNat = index :=
            UInt32.toNat_ofNat_of_lt (by omega)
          have later := ih (index + 1) directed (by omega)
          simp [numberEvents, ManagerEvent.split?, number, later, shape]
      | setParallelism tasks =>
          have shape : payloads (.setParallelism tasks :: rest) = payloads rest := rfl
          rw [shape] at few ⊢
          cases directed with
          | true => simpa [numberEvents] using ih index true few
          | false => exact ih index true few

/-- Before the first directive only splits are told, and what comes after goes on with their
numbers. -/
theorem numberEvents_append (index : Nat) (directed : Bool) {early : List InitializerEvent}
    (splits : ∀ event ∈ early, event.directive? = none) {front : List ManagerEvent}
    (told : numberEvents input index directed early = front ++ [.inputInitialized input])
    (late : List InitializerEvent) :
    numberEvents input index directed (early ++ late) =
      front ++ numberEvents input (index + (payloads early).length) directed late := by
  induction early generalizing index front with
  | nil =>
      have none : front = [] := List.append_left_eq_self.mp told.symm
      rw [none]
      rfl
  | cons first rest ih =>
      obtain ⟨split, others⟩ := List.forall_mem_cons.mp splits
      cases first with
      | setParallelism tasks => cases split
      | dataInformation payload =>
          have shape : payloads (.dataInformation payload :: rest) = payload :: payloads rest := rfl
          cases front with
          | nil => cases told
          | cons event front =>
              obtain ⟨rfl, more⟩ := List.cons.inj told
              rw [List.cons_append, numberEvents, ih _ others more, shape, List.length_cons,
                List.cons_append, Nat.add_assoc, Nat.add_comm 1]

theorem numberEvents_directive (index : Nat) (directed : Bool) (events : List InitializerEvent)
    (silent : directed = true ∨ ∀ event ∈ events, event.directive? = none) :
    ∀ event ∈ numberEvents input index directed events, event.directive? = none := by
  intro event told
  cases event with
  | setParallelism other tasks =>
      obtain rfl := Option.some.inj (numberEvents_input input index directed events _ told)
      obtain ⟨unset, found⟩ := (numberEvents_setParallelism other index directed events tasks).mp told
      obtain ⟨emitted, listed, asks⟩ := List.exists_of_findSome?_eq_some found
      rcases silent with directed | none
      · rw [directed] at unset
        cases unset
      · rw [none emitted listed] at asks
        cases asks
  | _ => rfl

end Numbering

theorem numberEvents_isEnd (input : String) (events : List InitializerEvent) :
    ∃ front, numberEvents input 0 false events = front ++ [.inputInitialized input] ∧
      ∀ event ∈ front, event.isEnd = false := by
  obtain ⟨front, same, fresh, going⟩ := numberEvents_ends input 0 false events
  have named := numberEvents_input input 0 false events
  refine ⟨front, same, fun event listed => ?_⟩
  have own := named event (same ▸ List.mem_append_left _ listed)
  cases event with
  | inputInitialized other =>
      obtain rfl := Option.some.inj own
      exact absurd listed fresh
  | inputFailed other detail =>
      obtain rfl := Option.some.inj own
      exact absurd listed (going detail)
  | _ => rfl

/-- What an initializer emitted is told as it was, with its splits numbered and without the
directives after the first; a failure is told alone. -/
theorem initializer_is_reported (input : String) :
    (∀ events, (payloads events).length < UInt32.size →
      Reports input events (toManagerEvents input (.ok events))) ∧
    ∀ detail, toManagerEvents input (.error detail) = [.inputFailed input detail] := by
  refine ⟨fun events few => ⟨?_, ?_, ?_, ?_, ?_⟩, fun detail => rfl⟩
  · exact toManagerEvents_input input (.ok events)
  · exact numberEvents_isEnd input events
  · exact numberEvents_split input 0 false events (by omega)
  · exact fun splits => numberEvents_directive input 0 false events (.inr splits)
  · rintro early tasks late rfl splits
    have fewer : (payloads early).length < UInt32.size := by
      simp only [payloads, List.filterMap_append, List.length_append] at few ⊢
      omega
    obtain ⟨before, same, _⟩ := numberEvents_isEnd input early
    refine ⟨before, numberEvents input (payloads early).length true late, ?_, ?_, ?_⟩
    · rw [toManagerEvents, numberEvents_append input 0 false splits same, Nat.zero_add]
      rfl
    · have quiet := numberEvents_directive input 0 false early (.inr splits)
      rw [same] at quiet
      refine List.forall_mem_append.mpr ⟨fun event listed => ?_, ?_⟩
      · exact quiet event (List.mem_append_left _ listed)
      · exact numberEvents_directive input _ true late (.inl rfl)
    · have numbered := numberEvents_split input 0 false early (by omega)
      have last : [ManagerEvent.inputInitialized input].filterMap ManagerEvent.split? = [] := rfl
      rwa [same, List.filterMap_append, last, List.append_nil] at numbered

/-- A directive between two splits, and one behind them that is dropped. -/
theorem second_directive_is_dropped :
    let events : List InitializerEvent := [.dataInformation [1], .setParallelism 5,
      .dataInformation [2], .setParallelism 7]
    let told := toManagerEvents "lines" (.ok events)
    told.filterMap ManagerEvent.split? = [([1], 0), ([2], 1)] ∧
      ∃ before after, told = before ++ .setParallelism "lines" 5 :: after ∧
        (∀ event ∈ before ++ after, event.directive? = none) ∧
        before.filterMap ManagerEvent.split? = [([1], 0)] := by
  intro events told
  have reports := (initializer_is_reported "lines").1 events (by decide)
  exact ⟨reports.numbered, reports.directed [.dataInformation [1]] 5 _ rfl (by simp; rfl)⟩

end ElasticJob
