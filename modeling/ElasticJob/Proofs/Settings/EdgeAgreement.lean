import ElasticJob.Proofs.Settings.EdgeHalves

/-!
Where both ends of an edge agree. A step for both ends makes the same of a key at each end if both
ends know the key or neither does. The two differ at first in keys that one end alone knows, and in
what a partitioner adds to the output; so they agree, after any such steps, under each key that both
ends know, and without a partitioner under each key that any component takes.
-/

namespace ElasticJob

open Settings

namespace Properties

variable {first second : Properties} {key : String}

theorem set_congr (same : first.get? key = second.get? key) (name value : String) :
    (first.set name value).get? key = (second.set name value).get? key := by
  rw [get?_set, get?_set, same]

theorem extend_congr (same : first.get? key = second.get? key)
    (entries : List (String × String)) :
    (first.extend entries).get? key = (second.extend entries).get? key :=
  SortedMap.insertMany_congr same entries

end Properties

namespace Settings

theorem get?_selectDefaults (defaults : List (String × String)) (own : List String)
    (key : String) :
    (selectDefaults defaults own).get? key =
      if key ∈ own then (SortedMap.ofList defaults).get? key else none := by
  have chosen := SortedMap.get?_insertMany_filter .empty defaults own.contains key
  simpa [selectDefaults, SortedMap.ofList] using chosen

theorem outputKeys_owned : ∀ key ∈ outputKeys, key ∈ ownedKeys := by
  decide +kernel

/-- What any component takes is not among the keys that an end knows, so both ends take it for the
same reason. -/
theorem not_shared_of_known {key : String} (known : key ∈ outputKeys ∨ key ∈ inputKeys) :
    ¬Shared key := by
  have apart : ∀ key ∈ outputKeys ++ inputKeys, ¬Shared key := by decide +kernel
  exact apart key (List.mem_append.mpr known)

end Settings

def Settings.Alike (key : String) : Prop :=
  key ∈ outputKeys ↔ key ∈ inputKeys

instance (key : String) : Decidable (Alike key) :=
  inferInstanceAs (Decidable (_ ↔ _))

def EdgeStep.SetsBufferOnly : EdgeStep → Prop
  | .output steps => ∀ step ∈ steps, ∃ megabytes, step = .buffer megabytes
  | _ => True

section Alike

variable {key : String} (alike : Alike key)

include alike

theorem Settings.Alike.mem_iff : key ∈ outputKeys ↔ key ∈ inputKeys := alike

theorem Settings.Alike.qualifies_eq :
    qualifies [outputKeys, sharedKeys] sharedStarts key =
      qualifies [inputKeys, sharedKeys] sharedStarts key := by
  rw [Bool.eq_iff_iff, qualifies_iff, qualifies_iff, alike.mem_iff]

theorem Settings.Alike.ne_of_not {name : String} (unlike : ¬Alike name) : key ≠ name := by
  rintro rfl
  exact unlike alike

theorem EdgeBuilder.unpartitioned_agrees (names : ClassNames) :
    (OutputBuilder.unpartitioned names).get? key = (startInput names).get? key := by
  have defaults : (selectDefaults ownedDefaults outputKeys).get? key =
      (selectDefaults ownedDefaults inputKeys).get? key := by
    simp only [get?_selectDefaults, alike.mem_iff]
  have apart : key ≠ Key.partitionerClass := alike.ne_of_not (by decide +kernel)
  unfold OutputBuilder.unpartitioned
  rw [Properties.get?_set, if_neg apart]
  -- all that is left is written to both ends, on top of the defaults of each
  apply Properties.set_congr
  apply Properties.set_congr
  apply Properties.extend_congr
  rw [Properties.get?_extend, Properties.get?_extend, defaults]
  rfl

theorem OutputBuilder.get?_buffers (builder : OutputBuilder) (steps : List OutputStep)
    (narrow : ∀ step ∈ steps, ∃ megabytes, step = .buffer megabytes) :
    (steps.foldl apply builder).conf.get? key = builder.conf.get? key := by
  have apart : key ≠ Key.unorderedOutputBufferSizeMb := alike.ne_of_not (by decide +kernel)
  induction steps generalizing builder with
  | nil => rfl
  | cons step rest ih =>
      obtain ⟨⟨megabytes, rfl⟩, others⟩ := List.forall_mem_cons.mp narrow
      rw [List.foldl_cons, ih _ others, get?_apply]
      simp [OutputStep.effect?, apart]

theorem EdgeBuilder.apply_agrees {builder : EdgeBuilder}
    (agree : builder.output.conf.get? key = builder.input.get? key) {step : EdgeStep}
    (narrow : step.SetsBufferOnly) :
    (builder.apply step).output.conf.get? key = (builder.apply step).input.get? key := by
  cases step with
  | compress codec =>
      have flag := Properties.set_congr agree Key.compress "true"
      cases codec with
      | none => exact flag
      | some name => exact Properties.set_congr flag Key.compressCodec name
  | setFrom conf =>
      change (builder.output.conf.extend _).get? key = (builder.input.extend _).get? key
      rw [get?_takeQualified, get?_takeQualified, alike.qualifies_eq, agree]
  | output steps =>
      change (steps.foldl OutputBuilder.apply builder.output).conf.get? key = _
      rw [OutputBuilder.get?_buffers alike _ _ narrow]
      exact agree

theorem EdgeBuilder.run_agrees {builder : EdgeBuilder}
    (agree : builder.output.conf.get? key = builder.input.get? key) {steps : List EdgeStep}
    (narrow : ∀ step ∈ steps, step.SetsBufferOnly) :
    (builder.run steps).output.conf.get? key = (builder.run steps).input.get? key := by
  induction steps generalizing builder with
  | nil => exact agree
  | cons step rest ih =>
      obtain ⟨first, others⟩ := List.forall_mem_cons.mp narrow
      exact ih (apply_agrees alike agree first) others

theorem EdgeSettings.configured_agrees (names : ClassNames) {partitioner : Option Properties}
    (kept : (OutputBuilder.initial names partitioner).conf.get? key =
      (OutputBuilder.unpartitioned names).get? key)
    {steps : List EdgeStep} (narrow : ∀ step ∈ steps, step.SetsBufferOnly) :
    (configure names partitioner steps).map (·.output.get? key) =
      (configure names partitioner steps).map (·.input.get? key) := by
  have agree : (EdgeBuilder.initial names partitioner).output.conf.get? key =
      (EdgeBuilder.initial names partitioner).input.get? key :=
    kept.trans (EdgeBuilder.unpartitioned_agrees alike names)
  have same := EdgeBuilder.run_agrees alike agree narrow
  rw [configure_map, configure_map]
  simp only [OutputSettings.get?, OutputBuilder.build, EdgeBuilder.build, same]

end Alike

/-- Where the names are accepted both ends are built, and where no section does more than set the
size of the buffer, they hold the same under each key that both know. Without a partitioner they
hold the same under each key that any component takes, too. -/
theorem edge_ends_agree (names : ClassNames) (partitioner : Option Properties)
    (steps : List EdgeStep) (narrow : ∀ step ∈ steps, step.SetsBufferOnly) :
    let edge := EdgeSettings.configure names partitioner steps
    ((∃ built, edge = .ok built) ↔ names.check = .ok ()) ∧
    (∀ key, key ∈ outputKeys → key ∈ inputKeys →
      edge.map (·.output.get? key) = edge.map (·.input.get? key)) ∧
    (partitioner = none → ∀ key, Shared key →
      edge.map (·.output.get? key) = edge.map (·.input.get? key)) := by
  refine ⟨EdgeSettings.configure_isOk_iff names partitioner steps, fun key written read => ?_,
    fun alone key shared => ?_⟩
  · have alike : Alike key := ⟨fun _ => read, fun _ => written⟩
    have kept := OutputBuilder.get?_initial (outputKeys_owned key written) names partitioner
    exact EdgeSettings.configured_agrees alike names kept narrow
  · have unknown := fun known => not_shared_of_known known shared
    have alike : Alike key :=
      ⟨fun written => absurd (.inl written) unknown, fun read => absurd (.inr read) unknown⟩
    subst alone
    have kept : (OutputBuilder.initial names none).conf.get? key =
        (OutputBuilder.unpartitioned names).get? key := rfl
    exact EdgeSettings.configured_agrees alike names kept narrow

/-- Legacy keys for both ends and for one of them, a buffer for the output, and a codec. -/
theorem legacy_settings_reach_both_ends :
    let names : ClassNames := ⟨"K", "V", "P"⟩
    let external := (((Properties.empty "job").set "mapreduce.map.output.compress.codec" "gz").set
      "mapreduce.reduce.shuffle.parallelcopies" "7").set "fs.root" "/data"
    let steps : List EdgeStep := [.setFrom external, .output [.buffer 8], .compress (some "lz4")]
    let edge := EdgeSettings.configure names none steps
    (∀ step ∈ steps, step.SetsBufferOnly) ∧ (∃ built, edge = .ok built) ∧
      edge.map (·.output.get? Key.compressCodec) = .ok (some "lz4") ∧
      edge.map (·.input.get? Key.compressCodec) = .ok (some "lz4") ∧
      edge.map (·.output.get? "fs.root") = edge.map (·.input.get? "fs.root") := by
  intro names external steps edge
  have narrow : ∀ step ∈ steps, step.SetsBufferOnly := by
    simp [steps, EdgeStep.SetsBufferOnly]
  obtain ⟨built, known, shared⟩ := edge_ends_agree names none steps narrow
  have accepted : names.check = .ok () := by decide +kernel
  have taken : OutputBuilder.takes Key.compressCodec = true := by decide +kernel
  have last : BuilderStep.lastEffect? Key.compressCodec (steps.flatMap EdgeStep.plain) =
      some (some "lz4") := by
    decide +kernel
  have codec : edge.map (·.output.get? Key.compressCodec) = .ok (some "lz4") := by
    rw [EdgeSettings.configure_map, accepted]
    simp only [OutputSettings.get?, OutputBuilder.build, EdgeBuilder.build,
      EdgeBuilder.run_output, OutputBuilder.get?_run, taken, last]
    rfl
  refine ⟨narrow, built.mpr accepted, codec, ?_, shared rfl _ (by decide +kernel)⟩
  exact (known _ (by decide +kernel) (by decide +kernel)).symm.trans codec

end ElasticJob
