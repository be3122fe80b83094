import ElasticJob.Proofs.Manager.Partition
import ElasticJob.Proofs.Manager.Waiting
import ElasticJob.Proofs.Properties.Canonical
import Mathlib.Algebra.Order.BigOperators.Group.List
import Mathlib.Data.Nat.Digits.Defs

/-!
Which payloads can take a new number of destination tasks. A payload that is there must be read, and
one that has no such key yet must have room for one more entry; anything else that was written can
be written again. A decision to reduce fails on the first edge whose payload is none of these, and
on nothing else.
-/

namespace ElasticJob

theorem mapError_eq_ok_iff {ε δ α : Type} {first : Except ε α} {wrap : ε → δ} {result : α} :
    first.mapError wrap = .ok result ↔ first = .ok result := by
  cases first <;> simp [Except.mapError]

section Folds

variable {ε α σ : Type} {step : σ → α → Except ε σ} {items : List α}

theorem foldlM_succeeds (succeeds : ∀ item ∈ items, ∀ state, ∃ next, step state item = .ok next)
    (first : σ) : ∃ last, items.foldlM step first = .ok last := by
  induction items generalizing first with
  | nil => exact ⟨first, rfl⟩
  | cons item rest ih =>
      obtain ⟨next, stepped⟩ := succeeds item List.mem_cons_self first
      obtain ⟨last, done⟩ := ih (fun other listed => succeeds other (List.mem_cons_of_mem _ listed))
        next
      rw [List.foldlM_cons]
      exact ⟨last, bind_eq_ok_iff.mpr ⟨next, stepped, done⟩⟩

theorem foldlM_error {first : σ} {error : ε} (failed : items.foldlM step first = .error error) :
    ∃ item ∈ items, ∃ state, step state item = .error error := by
  induction items generalizing first with
  | nil => cases failed
  | cons item rest ih =>
      rw [List.foldlM_cons] at failed
      cases stepped : step first item with
      | error other =>
          rw [stepped] at failed
          cases failed
          exact ⟨item, List.mem_cons_self, first, stepped⟩
      | ok next =>
          rw [stepped] at failed
          obtain ⟨other, listed, found⟩ := ih failed
          exact ⟨other, List.mem_cons_of_mem _ listed, found⟩

theorem foldlM_step_ok {first last : σ} (done : items.foldlM step first = .ok last) :
    ∀ item ∈ items, ∃ state next, step state item = .ok next := by
  induction items generalizing first with
  | nil => simp
  | cons item rest ih =>
      rw [List.foldlM_cons] at done
      obtain ⟨next, stepped, later⟩ := bind_eq_ok_iff.mp done
      rintro other listed
      rcases List.mem_cons.mp listed with rfl | listed
      · exact ⟨first, next, stepped⟩
      · exact ih later other listed

end Folds

section Entries

theorem SortedMap.size_insert {κ ν : Type} [KeyOrder κ] (map : SortedMap κ ν) (key : κ)
    (value : ν) :
    (map.insert key value).size = if map.contains key then map.size else map.size + 1 := by
  -- both sides are counted by keys, and each list of distinct keys fits into the other map
  have added := (map.insert key value).keys_nodup
  have before : ∀ other ∈ map.keys, (map.insert key value).contains other = true :=
    fun other listed => (contains_insert ..).mpr (.inr (contains_iff.mpr listed))
  have after : ∀ other ∈ (map.insert key value).keys, other = key ∨ map.contains other = true :=
    fun other listed => (contains_insert ..).mp (contains_iff.mpr listed)
  have size : ∀ held : SortedMap κ ν, held.keys.length = held.size :=
    fun held => List.length_map _
  split
  next present =>
    have up := length_le_size map _ added fun other listed =>
      (after other listed).elim (fun same => same ▸ present) id
    have down := length_le_size _ _ map.keys_nodup before
    rw [size] at up down
    omega
  next absent =>
    have fresh : key ∉ map.keys := fun listed => absent (contains_iff.mpr listed)
    have down := length_le_size (map.insert key value) (key :: map.keys)
      (List.nodup_cons.mpr ⟨fresh, map.keys_nodup⟩) (by
        simpa [(contains_insert map key value key).mpr (.inl rfl)] using before)
    have up : (map.insert key value).keys.length ≤ (key :: map.keys).length :=
      (added.subperm fun other listed => List.mem_cons.mpr
        ((after other listed).imp id contains_iff.mp)).length_le
    rw [List.length_cons, size] at down up
    rw [size] at up
    omega

theorem utf8ByteSize_le (text : String) : text.utf8ByteSize ≤ 4 * text.length := by
  have width (c : Char) : (Text.Utf8.encodePoint c.toNat).length ≤ 4 := by
    unfold Text.Utf8.encodePoint
    split_ifs <;> simp
  rw [← Text.Utf8.length_encode, Text.Utf8.encode, Text.Utf8.encodeChars, List.length_flatMap]
  calc _ ≤ text.toList.length * 4 := by
        simpa using List.sum_le_card_nsmul (text.toList.map fun c =>
          (Text.Utf8.encodePoint c.toNat).length) 4 (by simpa using fun c _ => width c)
    _ = 4 * text.length := by rw [String.length_toList, Nat.mul_comm]

end Entries

section Payloads

structure Writable (map : SortedMap String String) : Prop where
  few : map.size < 2 ^ 32
  short : ∀ entry ∈ map.entries, Payload.Short entry

theorem toBytes_isOk_iff {properties : Properties} :
    (∃ bytes, properties.toBytes = .ok bytes) ↔ Writable properties.map := by
  simp only [Properties.toBytes_eq_ok_iff]
  constructor
  · rintro ⟨bytes, few, short, _⟩
    exact ⟨few, short⟩
  · rintro ⟨few, short⟩
    exact ⟨_, few, short, rfl⟩

theorem ofBytes_writable {name : String} {bytes : Bytes} {properties : Properties}
    (read : Properties.ofBytes name bytes = .ok properties) : Writable properties.map := by
  obtain ⟨entries, lists, distinct, rfl⟩ := Properties.ofBytes_eq_ok_iff.mp read
  have same := SortedMap.entries_ofList_perm distinct
  refine ⟨?_, fun entry member => lists.short entry (same.mem_iff.mp member)⟩
  rw [SortedMap.size, same.length_eq]
  exact lists.few

theorem writable_insert {map : SortedMap String String} {key value : String}
    (writable : Writable map) (short : Payload.Short (key, value)) :
    Writable (map.insert key value) ↔ map.contains key = true ∨ map.size + 1 < 2 ^ 32 := by
  have entries : ∀ entry ∈ (map.insert key value).entries, Payload.Short entry := by
    intro entry member
    rcases SortedMap.mem_place member with rfl | old
    · exact short
    · exact writable.short entry old
  have few := writable.few
  by_cases present : map.contains key = true
  · refine iff_of_true ⟨?_, entries⟩ (.inl present)
    rwa [SortedMap.size_insert, if_pos present]
  · constructor
    · intro written
      have size := written.few
      rw [SortedMap.size_insert, if_neg present] at size
      exact .inr size
    · rintro (held | room)
      · exact absurd held present
      · exact ⟨by rwa [SortedMap.size_insert, if_neg present], entries⟩

theorem short_taskCount (tasks : UInt32) :
    Payload.Short (Settings.Key.destinationTaskCount, Number.integerText tasks.toNat) := by
  have digits : (Nat.repr tasks.toNat).length ≤ 10 :=
    Nat.repr_length _ _ (by decide) (Nat.lt_trans tasks.toNat_lt (by decide))
  have bytes := utf8ByteSize_le (Nat.repr tasks.toNat)
  have key : Settings.Key.destinationTaskCount.utf8ByteSize < 2 ^ 32 := by decide
  refine ⟨key, ?_⟩
  change (Nat.repr tasks.toNat).utf8ByteSize < 2 ^ 32
  omega

end Payloads

namespace InputEdge

def Retargeted (edge : InputEdge) : Prop :=
  edge.movement = .scatterGather ∧ edge.outputClass = OutputSettings.className

/-- The payload of the edge is read, and its entries are still counted by 32 bits with the number of
tasks among them. -/
def Retargetable (edge : InputEdge) : Prop :=
  ∀ bytes, edge.outputPayload = some bytes → ∃ conf,
    Properties.ofBytes OutputSettings.component bytes = .ok conf ∧
      (conf.contains Settings.Key.destinationTaskCount = true ∨ conf.size + 1 < 2 ^ 32)

end InputEdge

namespace ShuffleManager

theorem setTaskCount_isOk_iff {conf : Properties} (writable : Writable conf.map)
    (tasks : UInt32) :
    (∃ bytes, (conf.setInteger Settings.Key.destinationTaskCount tasks.toNat).toBytes =
        .ok bytes) ↔
      (conf.contains Settings.Key.destinationTaskCount = true ∨ conf.size + 1 < 2 ^ 32) :=
  toBytes_isOk_iff.trans (writable_insert writable (short_taskCount tasks))

def heldSettings (payload : Option Bytes) : Except JobError Properties :=
  match payload with
  | some bytes => Properties.ofBytes OutputSettings.component bytes
  | none => .ok (.empty OutputSettings.component)

theorem retargetPayload_eq (payload : Option Bytes) (tasks : UInt32) :
    retargetPayload payload tasks =
      ((heldSettings payload).bind fun conf =>
        (conf.setInteger Settings.Key.destinationTaskCount tasks.toNat).toBytes).mapError
          ManagerError.payload := by
  cases payload with
  | none => rfl
  | some bytes =>
      simp only [retargetPayload, heldSettings]
      cases Properties.ofBytes OutputSettings.component bytes <;> rfl

theorem retargetPayload_isOk_iff (edge : InputEdge) (tasks : UInt32) :
    (∃ bytes, retargetPayload edge.outputPayload tasks = .ok bytes) ↔ edge.Retargetable := by
  simp only [retargetPayload_eq, mapError_eq_ok_iff]
  unfold InputEdge.Retargetable heldSettings
  cases edge.outputPayload with
  | none =>
      -- a configuration without entries has room for one
      have fresh : Writable (Properties.empty OutputSettings.component).map :=
        ⟨by decide, by simp [Properties.empty, SortedMap.empty]⟩
      have room := (setTaskCount_isOk_iff fresh tasks).mpr (.inr (by decide))
      exact iff_of_true room (by simp)
  | some old =>
      constructor
      · rintro ⟨bytes, wrote⟩ same found
        cases found
        obtain ⟨conf, read, wrote⟩ := bind_eq_ok_iff.mp wrote
        exact ⟨conf, read, (setTaskCount_isOk_iff (ofBytes_writable read) tasks).mp ⟨bytes, wrote⟩⟩
      · intro fits
        obtain ⟨conf, read, room⟩ := fits old rfl
        obtain ⟨bytes, wrote⟩ := (setTaskCount_isOk_iff (ofBytes_writable read) tasks).mpr room
        exact ⟨bytes, bind_eq_ok_iff.mpr ⟨conf, read, wrote⟩⟩

theorem retargetPayload_error {payload : Option Bytes} {tasks : UInt32} {error : ManagerError}
    (failed : retargetPayload payload tasks = .error error) :
    ∃ cause, error = .payload cause := by
  rw [retargetPayload_eq] at failed
  cases written : (heldSettings payload).bind fun conf =>
      (conf.setInteger Settings.Key.destinationTaskCount tasks.toNat).toBytes with
  | error cause =>
      rw [written] at failed
      cases failed
      exact ⟨cause, rfl⟩
  | ok bytes =>
      rw [written] at failed
      cases failed

theorem routeEdge_isOk_iff (table : Routing) (decision : Reconfiguration) (edge : InputEdge) :
    (∃ next, routeEdge table decision edge = .ok next) ↔
      (edge.Retargeted → edge.Retargetable) := by
  rw [← retargetPayload_isOk_iff edge decision.parallelism]
  unfold routeEdge InputEdge.Retargeted
  split
  next other => simp [other]
  next scattered =>
    dsimp only
    split
    next foreign => simp [foreign]
    next known =>
      simp only [map_eq_ok_iff, not_not] at scattered known ⊢
      simp [scattered, known]

theorem routeEdge_error {table : Routing} {decision : Reconfiguration} {edge : InputEdge}
    {error : ManagerError} (failed : routeEdge table decision edge = .error error) :
    ∃ cause, error = .payload cause := by
  unfold routeEdge at failed
  split at failed
  next => cases failed
  next =>
    dsimp only at failed
    split at failed
    next => cases failed
    next =>
      cases written : retargetPayload edge.outputPayload decision.parallelism with
      | error other =>
          rw [written] at failed
          cases failed
          exact retargetPayload_error written
      | ok bytes =>
          rw [written] at failed
          cases failed

/-- A reduction comes about where every payload that it rewrites can take the number of tasks, and
fails over a payload otherwise. -/
theorem reduce_answer (manager : ShuffleManager) (context : Context) (share : Nat) :
    ((∀ edge ∈ context.edges, edge.Retargeted → edge.Retargetable) →
      ∃ decision, manager.reduce context share = .ok (.finalize decision)) ∧
    ((∃ edge ∈ context.edges, edge.Retargeted ∧ ¬ edge.Retargetable) →
      ∃ cause, manager.reduce context share = .error (.payload cause)) := by
  constructor
  · intro fits
    obtain ⟨last, routed⟩ := foldlM_succeeds
      (fun edge listed decision => (routeEdge_isOk_iff _ decision edge).mpr (fits edge listed)) _
    exact ⟨last, map_eq_ok_iff.mpr ⟨last, routed, rfl⟩⟩
  · rintro ⟨edge, listed, targeted, unfit⟩
    dsimp only [reduce]
    cases routed : context.edges.foldlM (routeEdge (ranges manager.initial.toNat share))
        { parallelism := UInt32.ofNat (ceilingDivide manager.initial.toNat share) } with
    | error error =>
        obtain ⟨other, _, state, failed⟩ := foldlM_error routed
        obtain ⟨cause, rfl⟩ := routeEdge_error failed
        exact ⟨cause, rfl⟩
    | ok last =>
        obtain ⟨state, next, passed⟩ := foldlM_step_ok routed edge listed
        exact absurd ((routeEdge_isOk_iff _ state edge).mp ⟨next, passed⟩ targeted) unfit

end ShuffleManager

end ElasticJob
