import ElasticJob.Proofs.Properties.TypedValues
import ElasticJob.Proofs.Settings.Modernization
import ElasticJob.Settings.Output

/-!
Which step decides a key of an output. What a step does to a key does not depend on what the builder
holds, and no step does anything to a key that the output does not take. So after any steps a key
that the output takes is as the last step that wrote or unset it has left it, and any other key is as
it was before them. A step that takes over many entries is the setter of one key, done for each of
them, and the order of the entries does not matter.
-/

namespace ElasticJob

namespace Settings

def Shared (key : String) : Prop :=
  key ∈ sharedKeys ∨ ∃ start ∈ sharedStarts, start.toList <+: key.toList

instance (key : String) : Decidable (Shared key) :=
  inferInstanceAs (Decidable (_ ∨ _))

theorem qualifies_iff {own : List String} {key : String} :
    qualifies [own, sharedKeys] sharedStarts key = true ↔ key ∈ own ∨ Shared key := by
  simp [qualifies, startsWith, Shared, or_assoc]

theorem get?_takeQualified (target source : Properties) (keySets : List (List String))
    (starts : List String) (key : String) :
    (target.extend (selectQualified keySets starts source.map).entries).get? key =
      if qualifies keySets starts key then (source.get? key).or (target.get? key)
      else target.get? key :=
  target.get?_extend_filter source (qualifies keySets starts) key

namespace Legacy

theorem modernizeBy_of_perm {order : Table} (rearranged : order.Perm table)
    (properties : Properties) : modernizeBy order properties = modernize properties := by
  have walked := modernizeBy_modernized order properties (table_tidy.reorder rearranged)
  exact (walked.reorder rearranged).unique (modernizeBy_modernized table properties table_tidy)

end Legacy

end Settings

open Settings

/-- What a step does to a key: it writes a value, it unsets the key (no value), or, where there is
no effect, it leaves the key alone. -/
def OutputStep.effect? (key : String) : OutputStep → Option (Option String)
  | .buffer megabytes =>
      if key = Key.unorderedOutputBufferSizeMb then
        some (some (Number.integerText megabytes.toNat))
      else none
  | .set name value => if key = name then some value else none
  | .setMap conf => (conf.get? key).map some
  | .setFrom conf => ((Legacy.modernize conf).get? key).map some

inductive BuilderStep where
  | compress (codec : Option String)
  | output (step : OutputStep)

namespace BuilderStep

def effect? (key : String) : BuilderStep → Option (Option String)
  | .compress codec =>
      if key = Key.compress then some (some "true")
      else if key = Key.compressCodec then codec.map some
      else none
  | .output step => step.effect? key

/-- The effect of the last step that has one. -/
def lastEffect? (key : String) (steps : List BuilderStep) : Option (Option String) :=
  steps.reverse.findSome? (effect? key)

theorem lastEffect?_cons (key : String) (step : BuilderStep) (rest : List BuilderStep) :
    lastEffect? key (step :: rest) = (lastEffect? key rest).or (step.effect? key) := by
  simp [lastEffect?, List.findSome?_append, Option.or]

theorem lastEffect?_eq_some_iff {key : String} {steps : List BuilderStep}
    {effect : Option String} :
    lastEffect? key steps = some effect ↔
      ∃ before step after, steps = before ++ step :: after ∧ step.effect? key = some effect ∧
        ∀ later ∈ after, later.effect? key = none := by
  constructor
  · intro last
    obtain ⟨after, step, before, reversed, does, silent⟩ := List.findSome?_eq_some_iff.mp last
    refine ⟨before.reverse, step, after.reverse, ?_, does, by simpa using silent⟩
    simpa using congrArg List.reverse reversed
  · rintro ⟨before, step, after, rfl, does, silent⟩
    apply List.findSome?_eq_some_iff.mpr
    exact ⟨after.reverse, step, before.reverse, by simp, does, by simpa using silent⟩

end BuilderStep

namespace OutputBuilder

open BuilderStep

def perform (builder : OutputBuilder) : BuilderStep → OutputBuilder
  | .compress codec => builder.compress codec
  | .output step => builder.apply step

def run (builder : OutputBuilder) (steps : List BuilderStep) : OutputBuilder :=
  steps.foldl perform builder

theorem run_append (builder : OutputBuilder) (before after : List BuilderStep) :
    builder.run (before ++ after) = (builder.run before).run after :=
  List.foldl_append

theorem takes_iff {key : String} : takes key = true ↔ key ∈ outputKeys ∨ Shared key :=
  qualifies_iff

/-- Compression and the buffer size are written without asking whether the output takes their keys.
It does, so a key that it does not take is none of them. -/
theorem ne_of_untaken {key name : String} (untaken : takes key ≠ true)
    (listed : name ∈ outputKeys) : key ≠ name := by
  rintro rfl
  exact untaken (takes_iff.mpr (.inl listed))

section Performing

variable (builder : OutputBuilder) (key : String)

theorem get?_compress (codec : Option String) :
    (builder.compress codec).conf.get? key =
      ((BuilderStep.compress codec).effect? key).getD (builder.conf.get? key) := by
  have apart : Key.compress ≠ Key.compressCodec := by decide +kernel
  cases codec with
  | none =>
      change (builder.conf.set Key.compress "true").get? key = _
      by_cases flag : key = Key.compress <;> simp [effect?, Properties.get?_set, flag]
  | some name =>
      change ((builder.conf.set Key.compress "true").set Key.compressCodec name).get? key = _
      by_cases flag : key = Key.compress
      · simp [effect?, Properties.get?_set, flag, apart]
      · by_cases named : key = Key.compressCodec <;>
          simp [effect?, Properties.get?_set, flag, named, apart.symm]

theorem get?_set (name : String) (value : Option String) :
    (builder.set name value).conf.get? key =
      if takes key ∧ key = name then value else builder.conf.get? key := by
  unfold set
  by_cases same : key = name
  · subst same
    by_cases taken : takes key = true
    · cases value <;> simp [taken, Properties.get?_set, Properties.get?_unset]
    · simp [taken]
  · split
    · cases value <;> simp [same, Properties.get?_set, Properties.get?_unset]
    · simp [same]

theorem get?_setMap (conf : Properties) :
    (builder.setMap conf).conf.get? key =
      if takes key then ((OutputStep.setMap conf).effect? key).getD (builder.conf.get? key)
      else builder.conf.get? key := by
  change (builder.conf.extend _).get? key = _
  rw [get?_takeQualified, OutputStep.effect?]
  cases conf.get? key <;> rfl

theorem get?_apply (step : OutputStep) :
    (builder.apply step).conf.get? key =
      if takes key then (step.effect? key).getD (builder.conf.get? key)
      else builder.conf.get? key := by
  cases step with
  | buffer megabytes =>
      change (builder.conf.set Key.unorderedOutputBufferSizeMb _).get? key = _
      rw [Properties.get?_set, OutputStep.effect?]
      split
      next size =>
        have taken : takes key = true := takes_iff.mpr (.inl (by rw [size]; decide +kernel))
        rw [if_pos taken]
        rfl
      next other => split <;> rfl
  | set name value =>
      change (builder.set name value).conf.get? key = _
      rw [get?_set]
      by_cases same : key = name <;> simp [OutputStep.effect?, same]
  | setMap conf => exact get?_setMap builder key conf
  | setFrom conf => exact get?_setMap builder key (Legacy.modernize conf)

theorem get?_perform (step : BuilderStep) :
    (builder.perform step).conf.get? key =
      if takes key then (step.effect? key).getD (builder.conf.get? key)
      else builder.conf.get? key := by
  cases step with
  | compress codec =>
      change (builder.compress codec).conf.get? key = _
      rw [get?_compress]
      split
      · rfl
      next untaken =>
        have flag : key ≠ Key.compress := ne_of_untaken untaken (by decide +kernel)
        have named : key ≠ Key.compressCodec := ne_of_untaken untaken (by decide +kernel)
        simp [effect?, flag, named]
  | output step => exact get?_apply builder key step

theorem get?_run (steps : List BuilderStep) :
    (builder.run steps).conf.get? key =
      if takes key then (lastEffect? key steps).getD (builder.conf.get? key)
      else builder.conf.get? key := by
  induction steps generalizing builder with
  | nil => simp [run, lastEffect?]
  | cons step rest ih =>
      change ((builder.perform step).run rest).conf.get? key = _
      rw [ih, get?_perform, lastEffect?_cons]
      split
      · cases lastEffect? key rest <;> rfl
      · rfl

end Performing

theorem set_name (builder : OutputBuilder) (name : String) (value : Option String) :
    (builder.set name value).conf.name = builder.conf.name := by
  unfold set
  split
  · cases value <;> rfl
  · rfl

theorem setMap_name (builder : OutputBuilder) (conf : Properties) :
    (builder.setMap conf).conf.name = builder.conf.name := rfl

theorem perform_name (builder : OutputBuilder) (step : BuilderStep) :
    (builder.perform step).conf.name = builder.conf.name := by
  cases step with
  | compress codec => cases codec <;> rfl
  | output step =>
      cases step with
      | buffer megabytes => rfl
      | set name value => exact builder.set_name name value
      | setMap conf => exact builder.setMap_name conf
      | setFrom conf => exact builder.setMap_name (Legacy.modernize conf)

theorem run_name (builder : OutputBuilder) (steps : List BuilderStep) :
    (builder.run steps).conf.name = builder.conf.name := by
  induction steps generalizing builder with
  | nil => rfl
  | cons step rest ih => exact (ih (builder.perform step)).trans (builder.perform_name step)

def setEach (builder : OutputBuilder) (entries : List (String × String)) : OutputBuilder :=
  entries.foldl (fun builder entry => builder.set entry.1 (some entry.2)) builder

theorem setEach_eq_run (builder : OutputBuilder) (entries : List (String × String)) :
    builder.setEach entries =
      builder.run (entries.map fun entry => .output (.set entry.1 (some entry.2))) := by
  rw [run, List.foldl_map]
  rfl

theorem lastEffect?_entries {entries : List (String × String)}
    (distinct : (entries.map Prod.fst).Nodup) (key : String) :
    lastEffect? key (entries.map fun entry => .output (.set entry.1 (some entry.2))) =
      (SortedMap.lookup key entries).map some := by
  induction entries with
  | nil => rfl
  | cons head rest ih =>
      obtain ⟨alone, others⟩ := List.nodup_cons.mp distinct
      rw [List.map_cons, lastEffect?_cons, ih others, SortedMap.lookup]
      by_cases here : key = head.1
      · subst here
        simp [SortedMap.lookup_eq_none_iff.mpr alone, effect?, OutputStep.effect?]
      · simp [here, effect?, OutputStep.effect?]

/-- The entries have distinct keys, so each has the last word on its own. -/
theorem setMap_eq_setEach (builder : OutputBuilder) {conf : Properties}
    {order : List (String × String)} (listing : order.Perm conf.map.entries) :
    builder.setMap conf = builder.setEach order := by
  have distinct : (order.map Prod.fst).Nodup :=
    (listing.map Prod.fst).nodup_iff.mpr conf.map.keys_nodup
  have listed (key : String) : SortedMap.lookup key order = conf.get? key := by
    apply Option.ext
    intro value
    rw [SortedMap.lookup_eq_some_iff distinct, listing.mem_iff]
    exact SortedMap.get?_eq_some_iff.symm
  have same : (builder.setMap conf).conf = (builder.setEach order).conf := by
    rw [setEach_eq_run]
    apply Properties.ext_get?
    · rw [setMap_name, run_name]
    · intro key
      rw [get?_setMap, get?_run, lastEffect?_entries distinct, listed, OutputStep.effect?]
  exact congrArg OutputBuilder.mk same

/-- After any steps, a key that the output takes is as the last step that wrote or unset it has left
it, and as it was at first if none did; any other key is as it was. A map is taken over as if its
entries were set one by one, in any order, and a whole configuration as the map that it is when its
legacy keys are modernized, in whatever order their table is walked. -/
theorem last_writer_decides (builder : OutputBuilder) (steps : List BuilderStep) :
    let built := (builder.run steps).build
    built.conf.name = builder.conf.name ∧
    (∀ key, key ∈ outputKeys ∨ Shared key →
      built.get? key = (lastEffect? key steps).getD (builder.conf.get? key)) ∧
    (∀ key, ¬(key ∈ outputKeys ∨ Shared key) → built.get? key = builder.conf.get? key) ∧
    ∀ conf : Properties,
      (∀ order, order.Perm conf.map.entries → builder.setMap conf = builder.setEach order) ∧
      ∀ order, order.Perm Legacy.table →
        builder.setFrom conf = builder.setMap (Legacy.modernizeBy order conf) := by
  intro built
  have reads (key : String) : built.get? key = (builder.run steps).conf.get? key := rfl
  refine ⟨builder.run_name steps, fun key taken => ?_, fun key untaken => ?_,
    fun conf => ⟨fun order listing => builder.setMap_eq_setEach listing,
      fun order rearranged => ?_⟩⟩
  · rw [reads, get?_run, if_pos (takes_iff.mpr taken)]
  · rw [reads, get?_run, if_neg (mt takes_iff.mp untaken)]
  · rw [Legacy.modernizeBy_of_perm rearranged, setFrom]

/-- The legacy codec overrides the codec that was set before it, compression is unset after it was
turned on, and the seed of the partitioner, which the output does not take, stays. -/
theorem mixed_steps_leave_last_values :
    let builder : OutputBuilder := ⟨((Properties.empty OutputSettings.component).set
      Key.compress "false").set "partitioner.seed" "7"⟩
    let external := ((Properties.empty "job").set
      "mapreduce.map.output.compress.codec" "lz4").set "stray" "1"
    let more := ((Properties.empty "more").set "partitioner.seed" "8").set "io.depth" "3"
    let steps : List BuilderStep := [.output (.set Key.compressCodec (some "zstd")),
      .compress none, .output (.setFrom external), .output (.set Key.compress none),
      .output (.setMap more)]
    let built := (builder.run steps).build
    built.get? Key.compressCodec = some "lz4" ∧ built.get? Key.compress = none ∧
      built.get? "io.depth" = some "3" ∧ built.get? "partitioner.seed" = some "7" ∧
      builder.setMap more = builder.setEach [("partitioner.seed", "8"), ("io.depth", "3")] ∧
      builder.setFrom external =
        builder.setMap (Legacy.modernizeBy Legacy.table.reverse external) := by
  intro builder external more steps built
  obtain ⟨_, taken, untaken, maps⟩ := last_writer_decides builder steps
  have codec : (Legacy.modernize external).get? Key.compressCodec = some "lz4" := by
    have modernized := Legacy.modernizeBy_modernized Legacy.table external Legacy.table_tidy
    have listed : ("mapreduce.map.output.compress.codec", [Key.compressCodec]) ∈ Legacy.table := by
      decide +kernel
    exact (modernized.current _ listed _ List.mem_cons_self).trans (by decide +kernel)
  have does : (BuilderStep.output (.setFrom external)).effect? Key.compressCodec =
      some (some "lz4") := by
    rw [effect?, OutputStep.effect?, codec, Option.map_some]
  have last : lastEffect? Key.compressCodec steps = some (some "lz4") :=
    lastEffect?_eq_some_iff.mpr ⟨[_, _], _, [_, _], rfl, does, by decide +kernel⟩
  refine ⟨?_, ?_, ?_, ?_, (maps more).1 _ (by decide +kernel),
    (maps external).2 _ (List.reverse_perm _)⟩
  · rw [taken _ (by decide +kernel), last, Option.getD_some]
  · exact (taken _ (by decide +kernel)).trans (by decide +kernel)
  · exact (taken _ (by decide +kernel)).trans (by decide +kernel)
  · exact (untaken _ (by decide +kernel)).trans (by decide +kernel)

end OutputBuilder

end ElasticJob
