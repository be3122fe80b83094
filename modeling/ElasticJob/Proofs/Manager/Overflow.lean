import ElasticJob.Proofs.Collection.Pairing
import ElasticJob.Proofs.Manager.Order
import ElasticJob.Proofs.Manager.Upstream
import ElasticJob.Proofs.Number.Word

/-!
The numbers of a shuffle manager as words. Tasks are counted in 64 bits, sizes are added, multiplied
and divided in 128, and partitions are shared out in 32. A manager that computes so, and gives up
where a number is no word or a divisor is zero, decides as the one that computes with numbers of any
size, as long as the source tasks, and these times the completed ones, are words of 64 bits.
-/

namespace ElasticJob

open Number Number.Word

namespace ShuffleManager

/-- Counts the tasks of the sources one after the other. It ends at a source whose tasks are not
known, and has no result where the count is no word. -/
def countTasks? (context : Context) : BitVec 64 → List String → Option (Option (BitVec 64))
  | sum, [] => some (some sum)
  | sum, source :: rest =>
      match context.sources.get? source with
      | none => some none
      | some tasks => do
          let tasks ← resize? 64 tasks.toBitVec
          let sum ← add? sum tasks
          countTasks? context sum rest

def addSizes? : BitVec 128 → List UInt64 → Option (BitVec 128)
  | sum, [] => some sum
  | sum, size :: rest => do
      let size ← resize? 128 size.toBitVec
      let sum ← add? sum size
      addSizes? sum rest

def estimate? (output : BitVec 128) (tasks completed : BitVec 64) : Option (BitVec 128) := do
  let tasks ← resize? 128 tasks
  let completed ← resize? 128 completed
  let scaled ← multiply? output tasks
  divide? scaled completed

def desired? (manager : ShuffleManager) (estimate : BitVec 128) : Option (BitVec 32) := do
  let size ← resize? 128 manager.settings.desiredSize.toBitVec
  let raised ← add? estimate size
  let raised ← subtract? raised 1
  let wanted ← divide? raised size
  let most ← resize? 128 manager.initial.toBitVec
  resize? 32 (smaller (larger wanted 1) most)

def ceilingDivide? (partitions share : BitVec 32) : Option (BitVec 32) :=
  if share < 2 then none
  else do
    let whole ← divide? partitions share
    let rest ← remainder? partitions share
    add? whole (if rest = 0 then 0 else 1)

def ranges? (partitions share : BitVec 32) : Option Routing :=
  if share < 2 then none
  else
    (List.range partitions.toNat).mapM fun partition => do
      let partition ← ofNat? 32 partition
      let task ← divide? partition (larger share 1)
      some (UInt32.ofBitVec task)

def reduce? (manager : ShuffleManager) (context : Context) (share : BitVec 32) :
    Option (Except ManagerError Decision) := do
  let tasks ← ceilingDivide? manager.initial.toBitVec share
  let table ← ranges? manager.initial.toBitVec share
  some ((context.edges.foldlM (routeEdge table)
    { parallelism := UInt32.ofBitVec tasks }).map .finalize)

def share? (manager : ShuffleManager) (sizes : List UInt64) (tasks completed : BitVec 64) :
    Option (BitVec 32) := do
  let output ← addSizes? 0 sizes
  let estimate ← estimate? output tasks completed
  let desired ← manager.desired? estimate
  divide? manager.initial.toBitVec desired

def settle? (manager : ShuffleManager) (listing : Listing manager) (context : Context)
    (tasks completed : BitVec 64) : Option (Except ManagerError Decision) :=
  if !manager.settings.reduces then some manager.keep
  else do
    let share ← manager.share? listing.sizes tasks completed
    if share ≤ 1 then some manager.keep else manager.reduce? context share

def tryDecide? (manager : ShuffleManager) (listing : Listing manager) (context : Context) :
    Option (Except ManagerError Decision) := do
  match ← countTasks? context 0 listing.sources with
  | none => some (.ok .pending)
  | some tasks =>
      if tasks = 0 then some manager.keep
      else
        let completed ← ofNat? 64 manager.completed.size
        if manager.tooFew tasks.toNat then some (.ok .pending)
        else manager.settle? listing context tasks completed

def known (context : Context) (sources : List String) : Nat :=
  (tasksOf (fun source => (context.sources.get? source).getD 0) sources).length

theorem known_cons (context : Context) (source : String) (rest : List String) :
    known context (source :: rest) =
      ((context.sources.get? source).getD 0).toNat + known context rest := by
  simp [known, tasksOf]

theorem known_perm (context : Context) {first second : List String} (order : first.Perm second) :
    known context first = known context second :=
  (order.flatMap_right _).length_eq

theorem countTasks?_exact (context : Context) (sources : List String) (sum : BitVec 64)
    (fits : sum.toNat + known context sources < 2 ^ 64) :
    ∃ counted, countTasks? context sum sources = some counted ∧
      counted.map BitVec.toNat = (tasksIn context sources).map (sum.toNat + ·) := by
  induction sources generalizing sum with
  | nil => exact ⟨some sum, rfl, rfl⟩
  | cons source rest ih =>
      rw [known_cons] at fits
      rw [countTasks?, tasksIn_cons]
      cases told : context.sources.get? source with
      | none => exact ⟨none, rfl, rfl⟩
      | some tasks =>
          rw [told, Option.getD_some] at fits
          obtain ⟨wide, widened, same⟩ := widen_gives tasks.toBitVec 64 (by decide)
          rw [UInt32.toNat_toBitVec] at same
          obtain ⟨next, added, exact⟩ := add?_gives sum wide (by omega)
          obtain ⟨counted, counts, later⟩ := ih next (by omega)
          refine ⟨counted, ?_, ?_⟩
          · simp only [widened, added, counts, Option.bind_eq_bind, Option.bind_some]
          · rw [later, exact, same, Option.bind_some, Option.map_map]
            exact congrArg (Option.map · _) (funext fun others => Nat.add_assoc ..)

theorem addSizes?_gives (sizes : List UInt64) (sum : BitVec 128)
    (fits : sum.toNat + total (sizes.map UInt64.toNat) < 2 ^ 128) :
    Gives (addSizes? sum sizes) (sum.toNat + total (sizes.map UInt64.toNat)) := by
  induction sizes generalizing sum with
  | nil => exact ⟨sum, rfl, rfl⟩
  | cons size rest ih =>
      rw [List.map_cons, total, ← Nat.add_assoc] at fits ⊢
      rw [addSizes?]
      refine (widen_gives size.toBitVec 128 (by decide)).bind fun wide same => ?_
      rw [UInt64.toNat_toBitVec] at same
      refine (add?_gives sum wide (by omega)).bind fun next exact => ?_
      rw [same] at exact
      rw [← exact] at fits ⊢
      exact ih next fits

theorem total_sizes_le (sizes : List UInt64) :
    total (sizes.map UInt64.toNat) ≤ sizes.length * (2 ^ 64 - 1) := by
  rw [total_eq_sum]
  calc (sizes.map UInt64.toNat).sum
      ≤ (sizes.map UInt64.toNat).length • (2 ^ 64 - 1) :=
        List.sum_le_card_nsmul _ _ fun value listed => by
          obtain ⟨size, _, rfl⟩ := List.mem_map.mp listed
          exact Nat.le_sub_one_of_lt size.toNat_lt
    _ = sizes.length * (2 ^ 64 - 1) := by rw [List.length_map, smul_eq_mul]

section Steps

variable {manager : ShuffleManager}

/-- As large as the sizes may be, an estimate is at most the square of the greatest word of 64
bits. -/
theorem extrapolated_le {output tasks completed : Nat} (sizes : output ≤ completed * (2 ^ 64 - 1))
    (counts : tasks < 2 ^ 64) : output * tasks / completed ≤ (2 ^ 64 - 1) * (2 ^ 64 - 1) := by
  have scaled : output * tasks ≤ completed * (tasks * (2 ^ 64 - 1)) :=
    calc output * tasks
        ≤ completed * (2 ^ 64 - 1) * tasks := Nat.mul_le_mul_right _ sizes
      _ = completed * (tasks * (2 ^ 64 - 1)) := by rw [Nat.mul_right_comm, Nat.mul_assoc]
  calc output * tasks / completed
      ≤ tasks * (2 ^ 64 - 1) := Nat.div_le_of_le_mul scaled
    _ ≤ (2 ^ 64 - 1) * (2 ^ 64 - 1) := Nat.mul_le_mul_right _ (Nat.le_sub_one_of_lt counts)

theorem estimate?_gives {output : BitVec 128} {tasks completed : BitVec 64}
    (sizes : output.toNat ≤ completed.toNat * (2 ^ 64 - 1)) (positive : 0 < completed.toNat)
    (fits : completed.toNat * tasks.toNat < 2 ^ 64) :
    Gives (estimate? output tasks completed) (output.toNat * tasks.toNat / completed.toNat) := by
  have scaled : output.toNat * tasks.toNat ≤ completed.toNat * tasks.toNat * (2 ^ 64 - 1) :=
    (Nat.mul_le_mul_right _ sizes).trans_eq (Nat.mul_right_comm ..)
  refine (widen_gives tasks 128 (by decide)).bind fun tasks' sameTasks => ?_
  refine (widen_gives completed 128 (by decide)).bind fun completed' same => ?_
  rw [← sameTasks] at scaled fits ⊢
  refine (multiply?_gives output tasks' (by omega)).bind fun product exact => ?_
  rw [← exact, ← same]
  exact divide?_gives product completed' (by omega)

/-- Next to an estimate there is room for one more size. -/
theorem desired?_gives {estimate : BitVec 128} (sized : 0 < manager.settings.desiredSize)
    (fits : estimate.toNat ≤ (2 ^ 64 - 1) * (2 ^ 64 - 1)) :
    Gives (manager.desired? estimate) (manager.desired estimate.toNat) := by
  have below := manager.settings.desiredSize.toNat_lt
  have one : BitVec.toNat (1 : BitVec 128) = 1 := rfl
  rw [UInt64.lt_iff_toNat_lt, UInt64.toNat_zero] at sized
  refine (widen_gives manager.settings.desiredSize.toBitVec 128 (by decide)).bind
    fun size same => ?_
  rw [UInt64.toNat_toBitVec] at same
  refine (add?_gives estimate size (by omega)).bind fun raised sum => ?_
  refine (subtract?_gives raised 1 (by omega)).bind fun lowered less => ?_
  refine (divide?_gives lowered size (by omega)).bind fun wanted quotient => ?_
  refine (widen_gives manager.initial.toBitVec 128 (by decide)).bind fun most clamp => ?_
  rw [UInt32.toNat_toBitVec] at clamp
  have clamped : (smaller (larger wanted 1) most).toNat = manager.desired estimate.toNat := by
    rw [toNat_smaller, toNat_larger, quotient, less, sum, same, clamp, one]
    rfl
  -- the clamp leaves a number of the narrow width
  have narrow : (smaller (larger wanted 1) most).toNat < 2 ^ 32 := by
    rw [toNat_smaller, clamp]
    exact (Nat.min_le_right ..).trans_lt manager.initial.toNat_lt
  exact clamped ▸ resize?_gives _ narrow

theorem desired_pos (positive : 0 < manager.initial) (estimate : Nat) :
    0 < manager.desired estimate :=
  Nat.lt_min.mpr ⟨Nat.lt_of_lt_of_le Nat.zero_lt_one (Nat.le_max_right ..),
    UInt32.lt_iff_toNat_lt.mp positive⟩

theorem ceilingDivide?_gives {partitions share : BitVec 32} (several : 2 ≤ share.toNat)
    (enough : share.toNat ≤ partitions.toNat) :
    Gives (ceilingDivide? partitions share) (ceilingDivide partitions.toNat share.toNat) := by
  have two : ¬ share < 2 := fun less => Nat.not_lt.mpr several (BitVec.lt_def.mp less)
  rw [ceilingDivide?, if_neg two]
  refine (divide?_gives partitions share (by omega)).bind fun whole quotient => ?_
  refine (remainder?_gives partitions share (by omega)).bind fun rest remainder => ?_
  have rounded : whole.toNat + (if rest = 0 then (0 : BitVec 32) else 1).toNat =
      ceilingDivide partitions.toNat share.toNat := by
    have even : rest = 0 ↔ partitions.toNat % share.toNat = 0 := by
      rw [BitVec.toNat_eq, remainder]
      rfl
    simp only [ceilingDivide, quotient, even]
    split <;> rfl
  have fits := (ceilingDivide_lt several enough).trans partitions.isLt
  rw [← rounded] at fits ⊢
  exact add?_gives whole _ fits

theorem ranges?_eq {partitions share : BitVec 32} (several : 2 ≤ share.toNat) :
    ranges? partitions share = some (ranges partitions.toNat share.toNat) := by
  have two : ¬ share < 2 := fun less => Nat.not_lt.mpr several (BitVec.lt_def.mp less)
  have divisor : (larger share 1).toNat = max share.toNat 1 := toNat_larger ..
  rw [ranges?, if_neg two, mapM_eq_some_iff, ranges, List.forall₂_map_right_iff, List.forall₂_same]
  intro partition listed
  obtain ⟨word, fits, same⟩ :=
    ofNat?_gives ((List.mem_range.mp listed).trans partitions.isLt)
  obtain ⟨task, shared, exact⟩ := divide?_gives word (larger share 1) (by omega)
  simp only [fits, shared, Option.bind_eq_bind, Option.bind_some]
  rw [← same, ← divisor, ← exact, UInt32.ofNat_bitVecToNat]

theorem reduce?_eq {share : BitVec 32} (context : Context) (several : 2 ≤ share.toNat)
    (enough : share.toNat ≤ manager.initial.toNat) :
    manager.reduce? context share = some (manager.reduce context share.toNat) := by
  rw [← UInt32.toNat_toBitVec] at enough
  obtain ⟨tasks, rounded, exact⟩ := ceilingDivide?_gives several enough
  simp only [reduce?, rounded, ranges?_eq several, Option.bind_eq_bind, Option.bind_some]
  rw [UInt32.toNat_toBitVec manager.initial] at exact ⊢
  rw [reduce, ← exact, UInt32.ofNat_bitVecToNat]

end Steps

section Decision

variable {manager : ShuffleManager} {context : Context}

structure Divides (manager : ShuffleManager) : Prop where
  sized : 0 < manager.settings.desiredSize
  started : 0 < manager.completed.size → 0 < manager.initial

theorem Due.completed_pos {tasks : Nat} (due : Due manager context tasks) :
    0 < manager.completed.size := by
  have enough := due.enough
  rw [tooFew, Bool.or_eq_false_iff, decide_eq_false_iff_not] at enough
  exact Nat.pos_of_ne_zero enough.1

theorem share?_gives (divides : Divides manager) {sizes : List UInt64} {tasks completed : BitVec 64}
    (all : sizes.Perm manager.completed.values) (same : completed.toNat = manager.completed.size)
    (positive : 0 < manager.completed.size)
    (fits : manager.completed.size * tasks.toNat < 2 ^ 64) :
    Gives (manager.share? sizes tasks completed) (manager.share tasks.toNat) := by
  have length : sizes.length = manager.completed.size :=
    all.length_eq.trans (List.length_map _)
  have output : total (sizes.map UInt64.toNat) = manager.completedSize := by
    rw [completedSize, total_eq_sum, total_eq_sum]
    exact (all.map UInt64.toNat).sum_eq
  have below := total_sizes_le sizes
  rw [length, ← same, output] at below
  rw [share, estimate]
  rw [← same] at positive fits ⊢
  have zero : BitVec.toNat (0 : BitVec 128) = 0 := rfl
  have word := completed.isLt
  refine (addSizes?_gives sizes 0 (by rw [zero, output]; omega)).bind fun sum summed => ?_
  rw [zero, Nat.zero_add, output] at summed
  rw [← summed] at below ⊢
  refine (estimate?_gives below positive fits).bind fun estimate estimated => ?_
  have bounded := extrapolated_le below tasks.isLt
  rw [← estimated] at bounded ⊢
  refine (desired?_gives divides.sized bounded).bind fun desired clamped => ?_
  have least := desired_pos (divides.started (same ▸ positive)) estimate.toNat
  rw [← clamped] at least ⊢
  exact divide?_gives manager.initial.toBitVec desired least

theorem Due.settle?_eq (divides : Divides manager) (listing : Listing manager)
    {tasks completed : BitVec 64} (due : Due manager context tasks.toNat)
    (same : completed.toNat = manager.completed.size)
    (fits : manager.completed.size * tasks.toNat < 2 ^ 64) :
    manager.settle? listing context tasks completed = some (manager.tryDecide context) := by
  obtain ⟨share, shared, exact⟩ :=
    share?_gives divides listing.allSizes same due.completed_pos fits
  have enough : share.toNat ≤ manager.initial.toNat := exact ▸ Nat.div_le_self _ _
  rw [due.tryDecide_eq, ← exact, settle?]
  cases manager.settings.reduces with
  | false => simp
  | true =>
      simp only [shared, Bool.not_true, Bool.false_eq_true, if_false, Option.bind_eq_bind,
        Option.bind_some, true_and]
      by_cases single : share ≤ 1
      · have one : ¬ 2 ≤ share.toNat := Nat.not_le_of_lt (Nat.lt_succ_of_le single)
        rw [if_pos single, if_neg one]
      · have several : 2 ≤ share.toNat := Nat.lt_of_not_le single
        rw [if_neg single, if_pos several, reduce?_eq context several enough]

/-- Words are enough for a decision. -/
theorem tryDecide?_eq (divides : Divides manager) (listing : Listing manager)
    (counts : known context manager.sources < 2 ^ 64)
    (fits : manager.completed.size * known context manager.sources < 2 ^ 64) :
    manager.tryDecide? listing context = some (manager.tryDecide context) := by
  have zero : BitVec.toNat (0 : BitVec 64) = 0 := rfl
  rw [← known_perm context listing.allSources] at counts
  obtain ⟨counted, counting, exact⟩ := countTasks?_exact context listing.sources 0
    ((Nat.zero_add _).trans_lt counts)
  rw [tasksIn_perm context listing.allSources, zero] at exact
  change _ = (manager.totalTasks? context).map _ at exact
  cases counted with
  | none =>
      have unknown : manager.totalTasks? context = none := Option.map_eq_none_iff.mp exact.symm
      simp only [tryDecide?, counting, tryDecide, unknown, Option.bind_eq_bind, Option.bind_some]
  | some tasks =>
      have total : manager.totalTasks? context = some tasks.toNat := by
        obtain ⟨total, told, same⟩ := Option.map_eq_some_iff.mp exact.symm
        rw [told, ← same, Nat.zero_add]
      rw [known, tasksIn_length total] at fits
      simp only [tryDecide?, counting, Option.bind_eq_bind, Option.bind_some]
      by_cases idle : tasks = 0
      · rw [if_pos idle, tryDecide, total, idle]
        rfl
      · have present : 0 < tasks.toNat :=
          Nat.pos_of_ne_zero fun zero => idle (BitVec.eq_of_toNat_eq zero)
        obtain ⟨completed, word, same⟩ := ofNat?_gives
          ((Nat.le_mul_of_pos_right manager.completed.size present).trans_lt fits)
        simp only [if_neg idle, word, Option.bind_some]
        cases few : manager.tooFew tasks.toNat with
        | true =>
            simp only [tryDecide, total, few, if_neg (Nat.ne_of_gt present), if_true]
        | false =>
            exact Due.settle?_eq divides listing ⟨total, present, few⟩ same fits

end Decision

section Runs

theorem start_fresh (context : Context) :
    0 < (start context {}).1.settings.desiredSize ∧ (start context {}).1.completed = .empty ∧
      ((start context {}).1.sources = [] ∨
        (start context {}).1.sources = scatteredSources context) := by
  unfold start
  split
  next => exact ⟨show 0 < ({} : ShuffleSettings).desiredSize by decide, rfl, .inl rfl⟩
  next settings read =>
    have sized := (ofPayload_bounds read).2
    split
    next => exact ⟨sized, rfl, .inl rfl⟩
    next =>
      dsimp only
      split <;> exact ⟨sized, rfl, .inr rfl⟩

theorem start_pending {context : Context} {next : ShuffleManager}
    (waits : start context {} = (next, .ok .pending)) :
    0 < next.settings.desiredSize ∧ 0 < next.initial ∧ next.sources = scatteredSources context := by
  unfold start at waits
  split at waits
  next => cases waits
  next settings read =>
    split at waits
    next => cases waits
    next tasks fixed =>
      dsimp only at waits
      split at waits
      next => exact absurd (Prod.mk.inj waits).2 (keep_ne_pending _)
      next busy =>
        obtain ⟨rfl, _⟩ := Prod.mk.inj waits
        have positive : tasks ≠ 0 := fun zero => busy (by simp [zero])
        exact ⟨(ofPayload_bounds read).2, UInt32.pos_iff_ne_zero.mpr positive, rfl⟩

theorem answered_divides {context informed : Context} {heard : List ManagerEvent}
    {manager : ShuffleManager} {answer : Except ManagerError Decision}
    (answered : behaviour.Answered context {} heard informed manager answer) :
    Divides manager ∧ (manager.sources = [] ∨ manager.sources = scatteredSources context) := by
  cases answered with
  | start begins =>
      obtain rfl : (start context {}).1 = manager := congrArg Prod.fst begins
      obtain ⟨sized, fresh, sources⟩ := start_fresh context
      exact ⟨⟨sized, fun heard => absurd heard (by rw [fresh]; decide)⟩, sources⟩
  | @event past before waiting _ event _ waits replies =>
      obtain ⟨first, begins, fed⟩ := (behaviour.serve_pending _ _ _ _ _).mp waits
      obtain ⟨sized, positive, sources⟩ := start_pending begins
      obtain ⟨rfl, rfl⟩ := feed_pending_eq fed
      obtain rfl : note _ event = manager :=
        congrArg Prod.fst ((onEvent_eq _ event _).symm.trans replies)
      obtain ⟨settings, initial, listed⟩ := foldl_note_frame first (past ++ [event])
      rw [List.foldl_append] at settings initial listed
      exact ⟨⟨settings ▸ sized, fun _ => initial ▸ positive⟩, .inr (listed.trans sources)⟩

/-- Whatever a manager was told, it decides with words, in whatever order its containers are walked:
no step leaves its width or divides by zero, and shares are only of several partitions. -/
theorem words_decide_as_numbers (context informed : Context) (heard : List ManagerEvent)
    (manager : ShuffleManager) (answer : Except ManagerError Decision)
    (answered : behaviour.Answered context {} heard informed manager answer)
    (counts : (upstream context informed).length < 2 ^ 64)
    (fits : manager.completed.size * (upstream context informed).length < 2 ^ 64) :
    ∀ listing : Listing manager,
      manager.tryDecide? listing informed = some (manager.tryDecide informed) := by
  intro listing
  obtain ⟨divides, idle | sources⟩ := answered_divides answered
  · have zero : known informed manager.sources = 0 := by rw [idle]; rfl
    exact tryDecide?_eq divides listing (by omega) (by rw [zero, Nat.mul_zero]; decide)
  · have all : known informed manager.sources = (upstream context informed).length := by
      rw [sources]
      rfl
    rw [← all] at counts fits
    exact tryDecide?_eq divides listing counts fits

/-- The largest size, extrapolated to four tasks, is no word of 64 bits; the decision is made as it
is for sizes that ask for three tasks. -/
theorem largest_size_is_shared_out :
    (∃ manager, behaviour.Answered tenPartitions {} [.taskCompleted "map" 0 78643200] tenPartitions
        manager (.ok (.finalize fourTasks)) ∧
      (upstream tenPartitions tenPartitions).length = 4 ∧ manager.completed.size * 4 = 4 ∧
      ∀ listing : Listing manager,
        manager.tryDecide? listing tenPartitions = some (.ok (.finalize fourTasks))) ∧
    ∃ manager, behaviour.Answered tenPartitions {} [.taskCompleted "map" 0 18446744073709551615]
        tenPartitions manager (.ok (.finalize { parallelism := 10 })) ∧
      2 ^ 64 < manager.estimate 4 ∧
      ∀ listing : Listing manager,
        manager.tryDecide? listing tenPartitions = some (.ok (.finalize { parallelism := 10 })) := by
  have four : (upstream tenPartitions tenPartitions).length = 4 := by decide
  have few : (upstream tenPartitions tenPartitions).length < 2 ^ 64 := by rw [four]; decide
  have largest : behaviour.Answered tenPartitions {} [.taskCompleted "map" 0 18446744073709551615]
      tenPartitions ((begun tenPartitions {} 10).note (.taskCompleted "map" 0 18446744073709551615))
      (.ok (.finalize { parallelism := 10 })) :=
    answered_tenPartitions _ _ (by decide +kernel)
  refine ⟨⟨_, first_report_decides, four, by decide +kernel, fun listing => ?_⟩,
    _, largest, by decide +kernel, fun listing => ?_⟩
  · rw [words_decide_as_numbers _ _ _ _ _ first_report_decides few (by rw [four]; decide +kernel)
      listing]
    decide +kernel
  · rw [words_decide_as_numbers _ _ _ _ _ largest few (by rw [four]; decide +kernel) listing]
    decide +kernel

end Runs

end ShuffleManager

end ElasticJob
