import ElasticJob.Proofs.Collection.Listing
import ElasticJob.Proofs.Manager.Reports
import ElasticJob.Proofs.Manager.RootInputOrder
import Mathlib.Data.Int.CardIntervalMod
import Mathlib.Order.Bounds.Basic

/-!
What the decision about a vertex with root inputs makes of the events before it. No order is asked of
them, nor that they come from initializers. The number of tasks is the one that was set, else the
fixed one, else the largest number of splits of one input; all splits of an input are given to the
tasks, to each as many as to any other or one more; and every input that is waited for completed.
-/

namespace ElasticJob

namespace RootInputManager

structure AskedFor (context : Context) (heard : List ManagerEvent) (tasks : UInt32) : Prop where
  directed : ∀ input other, .setParallelism input other ∈ heard → tasks = other
  fixed : (∀ input other, .setParallelism input other ∉ heard) →
    ∀ other, context.parallelism = .fixed other → tasks = other
  counted : (∀ input other, .setParallelism input other ∉ heard) →
    context.parallelism = .deferred →
      IsGreatest (Set.range fun input => heard.countP (·.isSplitOf input)) tasks.toNat

structure Dealt (table : Routing) (splits : Nat) (tasks : UInt32) : Prop where
  length : table.length = splits
  inside : ∀ task ∈ table, task < tasks
  even : ∀ one other, one < tasks → other < tasks → table.count one ≤ table.count other + 1

section RoundRobin

variable {tasks : UInt32}

theorem roundRobin_succ (splits : Nat) :
    roundRobin tasks (splits + 1) =
      roundRobin tasks splits ++ [UInt32.ofNat (splits % tasks.toNat)] := by
  simp [roundRobin, List.range_succ]

variable (positive : 0 < tasks)

include positive

theorem toNat_turn (split : Nat) :
    (UInt32.ofNat (split % tasks.toNat)).toNat = split % tasks.toNat :=
  UInt32.toNat_ofNat_of_lt'
    ((Nat.mod_lt _ (UInt32.lt_iff_toNat_lt.mp positive)).trans tasks.toNat_lt_size)

theorem count_roundRobin {task : UInt32} (inside : task < tasks) (splits : Nat) :
    (roundRobin tasks splits).count task =
      splits / tasks.toNat + if task.toNat < splits % tasks.toNat then 1 else 0 := by
  have turns : (roundRobin tasks splits).count task =
      Nat.count (· ≡ task.toNat [MOD tasks.toNat]) splits := by
    induction splits with
    | zero => rfl
    | succ split ih =>
        have turn : UInt32.ofNat (split % tasks.toNat) = task ↔
            split ≡ task.toNat [MOD tasks.toNat] := by
          rw [← UInt32.toNat_inj, toNat_turn positive, Nat.ModEq,
            Nat.mod_eq_of_lt (UInt32.lt_iff_toNat_lt.mp inside)]
        rw [roundRobin_succ, List.count_append, List.count_singleton, ih, Nat.count_succ]
        simp only [beq_iff_eq, turn]
  rw [turns, Nat.count_modEq_card _ (UInt32.lt_iff_toNat_lt.mp positive),
    Nat.mod_eq_of_lt (UInt32.lt_iff_toNat_lt.mp inside)]

theorem roundRobin_dealt (splits : Nat) : Dealt (roundRobin tasks splits) splits tasks where
  length := by simp [roundRobin]
  inside := by
    intro task listed
    obtain ⟨split, _, rfl⟩ := List.mem_map.mp listed
    rw [UInt32.lt_iff_toNat_lt, toNat_turn positive]
    exact Nat.mod_lt _ (UInt32.lt_iff_toNat_lt.mp positive)
  even := by
    intro one other inside within
    rw [count_roundRobin positive inside, count_roundRobin positive within]
    split <;> split <;> omega

end RoundRobin

section Events

variable {context informed later : Context} {past heard : List ManagerEvent}
  {manager next : RootInputManager} {event : ManagerEvent}

theorem Follows.skip (follows : Follows context past manager) (other : event.input? = none) :
    Follows context (past ++ [event]) manager := by
  have kept : ∀ one : ManagerEvent, one.input? ≠ none → (one ∈ past ++ [event] ↔ one ∈ past) := by
    intro one about
    rw [List.mem_append, List.mem_singleton]
    exact or_iff_left fun same => about (same ▸ other)
  have counts : ∀ input, (past ++ [event]).countP (·.isSplitOf input) =
      past.countP (·.isSplitOf input) := by
    intro input
    have outside : event.isSplitOf input = false := by
      cases event <;> first | rfl | cases other
    simp [outside]
  constructor
  · simpa only [kept (.inputInitialized _) (by simp [ManagerEvent.input?])] using follows.waiting
  · simpa only [kept (.inputFailed _ _) (by simp [ManagerEvent.input?])] using follows.going
  · simpa only [kept (.setParallelism _ _) (by simp [ManagerEvent.input?])] using follows.undirected
  · simpa only [kept (.setParallelism _ _) (by simp [ManagerEvent.input?])] using follows.directed
  · simpa only [counts] using follows.splits

theorem Follows.hear (follows : Follows context past manager)
    (silent : onEvent informed event manager = (next, .ok .pending)) :
    Follows context (past ++ [event]) next := by
  cases event with
  | dataInformation input index payload =>
      cases silent
      exact follows.split input index payload
  | setParallelism input tasks =>
      simp only [onEvent, setParallelism] at silent
      split at silent
      next free =>
        cases silent
        exact follows.direct input tasks free
      next first other known =>
        split at silent
        next same =>
          cases silent
          exact follows.agree first input tasks (same ▸ known)
        next => cases silent
  | inputInitialized input =>
      simp only [onEvent, RootInputManager.complete] at silent
      split at silent
      next => exact absurd (Prod.mk.inj silent).2 (decide_ne_pending _ informed)
      next =>
        cases silent
        exact follows.complete input
  | inputFailed input detail => cases silent
  | sourceConfigured source tasks =>
      cases silent
      exact follows.skip rfl
  | taskCompleted source task size =>
      cases silent
      exact follows.skip rfl

/-- Only the completion of the last input that is waited for makes a manager decide. -/
theorem Follows.finish {decision : Reconfiguration} (follows : Follows context past manager)
    (decided : onEvent informed event manager = (next, .ok (.finalize decision))) :
    Follows context (past ++ [event]) next ∧ next.waiting = [] ∧
      next.decide informed = .ok (.finalize decision) := by
  cases event with
  | inputInitialized input =>
      simp only [onEvent, RootInputManager.complete] at decided
      split at decided
      next idle =>
        obtain ⟨rfl, answer⟩ := Prod.mk.inj decided
        exact ⟨follows.complete input, List.isEmpty_iff.mp idle, answer⟩
      next => cases decided
  | setParallelism input tasks =>
      simp only [onEvent, setParallelism] at decided
      split at decided
      next => cases decided
      next => split at decided <;> cases decided
  | _ => cases decided

theorem Follows.feed {events : List ManagerEvent} (follows : Follows context past manager)
    (waits : behaviour.feed informed manager events = .pending later next) :
    Follows context (past ++ events) next ∧ later.parallelism = informed.parallelism := by
  induction events generalizing past informed manager with
  | nil =>
      cases waits
      exact ⟨by rwa [List.append_nil], rfl⟩
  | cons event rest ih =>
      obtain ⟨middle, silent, fed⟩ := (behaviour.feed_cons_pending _ _ _ _ _ _).mp waits
      obtain ⟨reads, same⟩ := ih (follows.hear silent) fed
      rw [List.append_assoc] at reads
      exact ⟨reads, same.trans (Scheduler.learn_frame informed event).2⟩

theorem start_follows (begins : start context {} = (next, .ok .pending)) :
    Follows context [] next := by
  simp only [start] at begins
  split at begins
  next =>
    split at begins
    next => exact absurd (Prod.mk.inj begins).2 (decide_ne_pending _ context)
    next => cases begins
  next =>
    cases begins
    exact follows_start context

theorem answered_follows {decision : Reconfiguration}
    (answered : behaviour.Answered context {} heard informed manager (.ok (.finalize decision))) :
    Follows context heard manager ∧ manager.waiting = [] ∧
      informed.parallelism = context.parallelism ∧
      manager.decide informed = .ok (.finalize decision) := by
  cases answered with
  | start begins =>
      simp only [behaviour, start] at begins
      split at begins
      next idle =>
        split at begins
        next tasks fixed =>
          obtain ⟨rfl, decided⟩ := Prod.mk.inj begins
          exact ⟨follows_start _, List.isEmpty_iff.mp idle, rfl, decided⟩
        next => cases begins
      next => cases begins
  | @event past before waiting _ event _ waits replies =>
      obtain ⟨first, begins, fed⟩ := (behaviour.serve_pending _ _ _ _ _).mp waits
      obtain ⟨reads, same⟩ := (start_follows begins).feed fed
      obtain ⟨follows, idle, decided⟩ := reads.finish replies
      exact ⟨follows, idle, (Scheduler.learn_frame before event).2.trans same, decided⟩

end Events

section Decision

variable {context informed : Context} {heard : List ManagerEvent} {manager : RootInputManager}
  {decision : Reconfiguration}

theorem decide_routes (counted : ∀ entry ∈ manager.splits.entries, entry.2 ≠ 0)
    (decided : manager.decide context = .ok (.finalize decision)) :
    decision.parallelism = manager.parallelism context ∧
      (∀ entry ∈ manager.splits.entries, decision.parallelism ≠ 0) ∧
      ∀ input, decision.routing.get? input =
        (manager.splits.get? input).map (roundRobin decision.parallelism) := by
  have manned : ∀ entry ∈ manager.splits.entries, manager.parallelism context ≠ 0 := by
    intro entry listed unmanned
    cases entries : manager.splits.entries with
    | nil =>
        rw [entries] at listed
        cases listed
    | cons first rest =>
        have stored : first ∈ manager.splits.entries := entries ▸ List.mem_cons_self
        simp [decide, entries, addRouting, counted first stored, unmanned, bind,
          Except.bind, Except.map] at decided
  rw [decide, foldlM_addRouting _ _ _ fun entry listed =>
    ⟨counted entry listed, manned entry listed⟩] at decided
  cases decided
  refine ⟨rfl, manned, fun input => ?_⟩
  have distinct : ((manager.splits.entries.map fun entry =>
      (entry.1, roundRobin (manager.parallelism context) entry.2)).map Prod.fst).Nodup := by
    rw [List.map_map]
    exact manager.splits.keys_nodup
  exact ((SortedMap.get?_insertMany distinct _ input).trans Option.or_none).trans
    (SortedMap.lookup_map manager.splits.entries _ input)

end Decision

section Asked

variable {context informed : Context} {heard : List ManagerEvent} {manager : RootInputManager}
  (follows : Follows context heard manager)

theorem foldl_max_mem (counts : List Nat) (start : Nat) :
    counts.foldl max start = start ∨ counts.foldl max start ∈ counts := by
  induction counts generalizing start with
  | nil => exact .inl rfl
  | cons first rest ih =>
      rw [List.foldl_cons, List.mem_cons]
      rcases ih (max start first) with same | listed
      · rw [same]
        rcases Nat.le_total start first with less | more
        · exact .inr (.inl (Nat.max_eq_right less))
        · exact .inl (Nat.max_eq_left more)
      · exact .inr (.inr listed)

include follows

theorem splits_entry (entry : String × Nat) :
    entry ∈ manager.splits.entries ↔
      heard.countP (·.isSplitOf entry.1) = entry.2 ∧ entry.2 ≠ 0 := by
  rw [← SortedMap.get?_eq_some_iff, follows.splits]
  split
  next silent =>
    refine ⟨fun found => (nomatch found), ?_⟩
    rintro ⟨same, counted⟩
    exact absurd (same.symm.trans silent) counted
  next counted =>
    rw [Option.some.injEq]
    exact ⟨fun same => ⟨same, same ▸ counted⟩, And.left⟩

theorem mostSplits_greatest :
    IsGreatest (Set.range fun input => heard.countP (·.isSplitOf input))
      (mostSplits manager.splits) := by
  have bound : ∀ input, heard.countP (·.isSplitOf input) ≤ mostSplits manager.splits := by
    intro input
    by_cases silent : heard.countP (·.isSplitOf input) = 0
    · omega
    · have stored := (splits_entry follows (input, _)).mpr ⟨rfl, silent⟩
      exact ((foldl_max_le_iff _ 0 _).mp (Nat.le_refl _)).2 _
        (List.mem_map_of_mem (f := Prod.snd) stored)
  refine ⟨?_, Set.forall_mem_range.mpr bound⟩
  rcases foldl_max_mem manager.splits.values 0 with zero | listed
  · exact ⟨"", Nat.le_antisymm (bound "") (zero.trans_le (Nat.zero_le _))⟩
  · obtain ⟨entry, stored, same⟩ := List.mem_map.mp listed
    exact ⟨entry.1, ((splits_entry follows entry).mp stored).1.trans same⟩

theorem parallelism_asked (same : informed.parallelism = context.parallelism)
    (few : heard.length < 2 ^ 32) :
    AskedFor context heard (manager.parallelism informed) := by
  unfold RootInputManager.parallelism
  rw [same]
  cases known : manager.directive with
  | some directive =>
      obtain ⟨read, only⟩ := follows.directed directive.1 directive.2 known
      refine ⟨fun input other set => (only input other set).symm, fun free => ?_, fun free => ?_⟩
      · exact absurd read (free _ _)
      · exact absurd read (free _ _)
  | none =>
      have free := follows.undirected known
      refine ⟨fun input other set => absurd set (free input other), fun _ other fixed => ?_,
        fun _ deferred => ?_⟩
      · rw [fixed]
      · rw [deferred]
        have greatest := mostSplits_greatest follows
        obtain ⟨input, most⟩ := greatest.1
        have fits : mostSplits manager.splits < 2 ^ 32 :=
          most ▸ Nat.lt_of_le_of_lt List.countP_le_length few
        rwa [UInt32.toNat_ofNat_of_lt' fits]

end Asked

/-- Every split of every input is given to a task, in turn, and all inputs that are waited for have
completed. -/
theorem splits_are_dealt_evenly (context informed : Context) (heard : List ManagerEvent)
    (manager : RootInputManager) (decision : Reconfiguration)
    (answered : behaviour.Answered context {} heard informed manager (.ok (.finalize decision)))
    (few : heard.length < 2 ^ 32) :
    AskedFor context heard decision.parallelism ∧
      (∀ input, heard.countP (·.isSplitOf input) = 0 → decision.routing.get? input = none) ∧
      (∀ input, 0 < heard.countP (·.isSplitOf input) →
        ∃ table, decision.routing.get? input = some table ∧
          Dealt table (heard.countP (·.isSplitOf input)) decision.parallelism) ∧
      ∀ input ∈ context.inputs, .inputInitialized input ∈ heard := by
  obtain ⟨follows, idle, same, decided⟩ := answered_follows answered
  obtain ⟨tasks, manned, routed⟩ := decide_routes
    (fun entry stored => ((splits_entry follows entry).mp stored).2) decided
  refine ⟨tasks ▸ parallelism_asked follows same few, fun input silent => ?_, fun input counted => ?_,
    fun input listed => ?_⟩
  · rw [routed, follows.splits, if_pos silent]
    rfl
  · have stored := (splits_entry follows (input, _)).mpr ⟨rfl, Nat.ne_of_gt counted⟩
    refine ⟨_, ?_, roundRobin_dealt (UInt32.pos_iff_ne_zero.mpr (manned _ stored)) _⟩
    rw [routed, follows.splits, if_neg (Nat.ne_of_gt counted)]
    rfl
  · by_contra missing
    have waits := (follows.waiting input).mpr ⟨listed, missing⟩
    rw [idle] at waits
    cases waits

def fiveSplits : List ManagerEvent :=
  [.dataInformation "orders" 0 [], .sourceConfigured "map" 7, .dataInformation "orders" 1 [],
    .dataInformation "items" 0 [], .dataInformation "orders" 2 [], .inputInitialized "items",
    .dataInformation "orders" 3 [], .dataInformation "orders" 4 []]

def threeTasks : Context :=
  { vertex := "scan", parallelism := .fixed 3, inputs := ["orders", "items"] }

theorem five_splits_are_dealt_to_three_tasks :
    ∃ informed manager decision table,
      behaviour.Answered threeTasks {} (fiveSplits ++ [.inputInitialized "orders"]) informed manager
        (.ok (.finalize decision)) ∧
      decision.parallelism = 3 ∧ decision.routing.get? "orders" = some table ∧
      Dealt table 5 3 ∧ decision.routing.get? "map" = none ∧
      .inputInitialized "items" ∈ fiveSplits ++ [.inputInitialized "orders"] := by
  have waits : behaviour.serve threeTasks {} fiveSplits =
      .pending (threeTasks.setSource "map" 7)
        { waiting := ["orders"], splits := .ofList [("items", 1), ("orders", 5)] } := by
    decide +kernel
  have answered : behaviour.Answered threeTasks {} (fiveSplits ++ [.inputInitialized "orders"])
      (threeTasks.setSource "map" 7) { splits := .ofList [("items", 1), ("orders", 5)] }
      (.ok (.finalize
        { parallelism := 3, routing := .ofList [("items", [0]), ("orders", [0, 1, 2, 0, 1])] })) :=
    Behaviour.Answered.event waits (by decide +kernel)
  obtain ⟨asked, absent, dealt, completed⟩ := splits_are_dealt_evenly _ _ _ _ _ answered (by decide)
  obtain ⟨table, routed, spread⟩ := dealt "orders" (by decide)
  exact ⟨_, _, _, table, answered, asked.fixed (by simp [fiveSplits]) 3 rfl, routed, spread,
    absent "map" (by decide), completed "items" (by decide)⟩

end RootInputManager

end ElasticJob
