import ElasticJob.Config.Overlay
import ElasticJob.Error
import ElasticJob.Proofs.Properties.TypedValues

/-!
Overlays one after another. A configuration is looked at setting by setting: the text of a key sets
the value of that key and of no other, whatever the configuration was. So what a whole overlay leaves
at a key is decided by the text for that key alone, two overlays are one, and an overlay that fails
is one of the keys before the one that failed.
-/

namespace ElasticJob

inductive Setting where
  | policy (policy : NamespacePolicy)
  | flag (isSet : Bool)
  | number (value : UInt64)
  | text (text : String)
  | optional (text : Option String)
  deriving DecidableEq

namespace ConfigKey

theorem name_inj {first second : ConfigKey} (same : first.name = second.name) : first = second := by
  cases first <;> cases second <;> first | rfl | exact absurd same (by decide +kernel)

theorem mem_all (key : ConfigKey) : key ∈ all := by
  cases key <;> decide

end ConfigKey

namespace JobConfig

def setting (config : JobConfig) : ConfigKey → Setting
  | .policy => .policy config.policy
  | .historyEnabled => .flag config.history.isEnabled
  | .flushTimeout => .number config.history.flushTimeout
  | .batchLimit => .number config.history.batchLimit
  | .queueCapacity => .number config.history.queueCapacity
  | .logLevel => .text config.logLevel
  | .logDirectory => .optional config.logDirectory

theorem ext_setting {first second : JobConfig}
    (same : ∀ key, first.setting key = second.setting key) : first = second := by
  obtain ⟨policy, ⟨isEnabled, flushTimeout, batchLimit, queueCapacity⟩, logLevel, logDirectory⟩ :=
    first
  obtain ⟨policy', ⟨isEnabled', flushTimeout', batchLimit', queueCapacity'⟩, logLevel',
    logDirectory'⟩ := second
  obtain rfl := Setting.policy.inj (same .policy)
  obtain rfl := Setting.flag.inj (same .historyEnabled)
  obtain rfl := Setting.number.inj (same .flushTimeout)
  obtain rfl := Setting.number.inj (same .batchLimit)
  obtain rfl := Setting.number.inj (same .queueCapacity)
  obtain rfl := Setting.text.inj (same .logLevel)
  obtain rfl := Setting.optional.inj (same .logDirectory)
  rfl

def Sets (key : ConfigKey) (changed : JobConfig → JobConfig) : Prop :=
  ∃ value, ∀ (config : JobConfig) (other : ConfigKey),
    (changed config).setting other = if other = key then value else config.setting other

theorem sets_of_map {α ε : Type} {attempt : Except ε α} {shape : α → JobConfig → JobConfig}
    {key : ConfigKey} (each : ∀ value, Sets key (shape value)) {changed : JobConfig → JobConfig}
    (done : attempt.map shape = .ok changed) : Sets key changed := by
  obtain ⟨value, _, rfl⟩ := map_eq_ok_iff.mp done
  exact each value

theorem change_sets {key : ConfigKey} {text : String} {changed : JobConfig → JobConfig}
    (done : change key text = .ok changed) : Sets key changed := by
  cases key with
  | policy =>
      refine sets_of_map (fun policy => ⟨.policy policy, fun config other => ?_⟩) done
      cases other <;> rfl
  | historyEnabled =>
      refine sets_of_map (fun enabled => ⟨.flag enabled, fun config other => ?_⟩) done
      cases other <;> rfl
  | flushTimeout =>
      refine sets_of_map (fun timeout => ⟨.number timeout, fun config other => ?_⟩) done
      cases other <;> rfl
  | batchLimit =>
      simp only [change] at done
      split at done
      next => cases done
      next limit _ =>
        split at done
        next => cases done
        next =>
          cases done
          refine ⟨.number limit, fun config other => ?_⟩
          cases other <;> rfl
  | queueCapacity =>
      refine sets_of_map (fun capacity => ⟨.number capacity, fun config other => ?_⟩) done
      cases other <;> rfl
  | logLevel =>
      cases done
      refine ⟨.text text, fun config other => ?_⟩
      cases other <;> rfl
  | logDirectory =>
      cases done
      refine ⟨.optional (some text), fun config other => ?_⟩
      cases other <;> rfl

def Accepts (properties : Properties) (key : ConfigKey) : Prop :=
  ∀ text, properties.get? key.name = some text → ∃ changed, change key text = .ok changed

/-- What an overlay leaves at a key: the value of the text for it, and without a text the setting
that was there. -/
def overlaid (properties : Properties) (config : JobConfig) (key : ConfigKey) : Setting :=
  match properties.get? key.name with
  | none => config.setting key
  | some text =>
      match change key text with
      | .ok changed => (changed config).setting key
      | .error _ => config.setting key

theorem overlaid_congr {properties : Properties} {first second : JobConfig} {key : ConfigKey}
    (same : first.setting key = second.setting key) :
    overlaid properties first key = overlaid properties second key := by
  rw [overlaid, overlaid]
  split
  next => exact same
  next =>
    split
    next done =>
      obtain ⟨value, sets⟩ := change_sets done
      rw [sets, sets, if_pos rfl, if_pos rfl]
    next => exact same

/-- One key: a text that is accepted is set as the overlay leaves it and the other keys follow, and
one that is refused is the end. -/
theorem applyKeys_step (properties : Properties) (config : JobConfig) (key : ConfigKey) :
    (Accepts properties key ∧ ∃ next : JobConfig,
      (∀ rest, applyKeys properties config (key :: rest) = applyKeys properties next rest) ∧
      ∀ other, next.setting other =
        if other = key then overlaid properties config key else config.setting other) ∨
    ∃ text error, properties.get? key.name = some text ∧ change key text = .error error ∧
      ∀ rest, applyKeys properties config (key :: rest) = (config, .error error) := by
  cases held : properties.get? key.name with
  | none =>
      refine .inl ⟨fun text found => ?_, config, fun rest => ?_, fun other => ?_⟩
      · rw [held] at found
        cases found
      · rw [applyKeys, held]
      · rw [overlaid, held]
        split
        next same => rw [same]
        next => rfl
  | some text =>
      cases done : change key text with
      | error error => exact .inr ⟨text, error, rfl, done, fun rest => by simp [applyKeys, held, done]⟩
      | ok changed =>
          obtain ⟨value, sets⟩ := change_sets done
          refine .inl ⟨fun other found => ?_, changed config, fun rest => ?_, fun other => ?_⟩
          · obtain rfl := Option.some.inj (held.symm.trans found)
            exact ⟨changed, done⟩
          · simp only [applyKeys, held, done]
          · simp only [overlaid, held, done, sets, if_true]

section Keys

variable {properties : Properties} (config : JobConfig)

theorem applyKeys_settles {keys : List ConfigKey} (distinct : keys.Nodup)
    (accepts : ∀ key ∈ keys, Accepts properties key) :
    ∃ after, applyKeys properties config keys = (after, .ok ()) ∧
      ∀ key, after.setting key =
        if key ∈ keys then overlaid properties config key else config.setting key := by
  induction keys generalizing config with
  | nil => exact ⟨config, rfl, fun key => by simp⟩
  | cons first rest ih =>
      obtain ⟨alone, others⟩ := List.nodup_cons.mp distinct
      obtain ⟨head, tail⟩ := List.forall_mem_cons.mp accepts
      rcases applyKeys_step properties config first with
        ⟨_, next, steps, here⟩ | ⟨text, error, held, refused, _⟩
      · obtain ⟨after, run, settled⟩ := ih next others tail
        refine ⟨after, (steps rest).trans run, fun key => ?_⟩
        rw [settled]
        by_cases same : key = first
        · subst same
          rw [if_neg alone, if_pos List.mem_cons_self, here, if_pos rfl]
        · have unchanged : next.setting key = config.setting key := by rw [here, if_neg same]
          simp only [List.mem_cons, same, false_or, unchanged, overlaid_congr unchanged]
      · obtain ⟨changed, done⟩ := head text held
        rw [refused] at done
        cases done

theorem applyKeys_ok {keys : List ConfigKey} {after : JobConfig}
    (done : applyKeys properties config keys = (after, .ok ())) :
    ∀ key ∈ keys, Accepts properties key := by
  induction keys generalizing config with
  | nil => exact List.forall_mem_nil _
  | cons first rest ih =>
      rcases applyKeys_step properties config first with
        ⟨accepts, next, steps, _⟩ | ⟨text, error, _, _, ends⟩
      · rw [steps] at done
        exact List.forall_mem_cons.mpr ⟨accepts, ih next done⟩
      · rw [ends] at done
        cases done

theorem applyKeys_error {keys : List ConfigKey} {left : JobConfig} {error : ConfigError}
    (failed : applyKeys properties config keys = (left, .error error)) :
    ∃ before key after text, keys = before ++ key :: after ∧
      properties.get? key.name = some text ∧ change key text = .error error ∧
      applyKeys properties config before = (left, .ok ()) := by
  induction keys generalizing config with
  | nil => cases failed
  | cons first rest ih =>
      rcases applyKeys_step properties config first with
        ⟨_, next, steps, _⟩ | ⟨text, fault, held, refused, ends⟩
      · rw [steps] at failed
        obtain ⟨before, key, after, text, rfl, held, refused, done⟩ := ih next failed
        exact ⟨first :: before, key, after, text, rfl, held, refused, (steps before).trans done⟩
      · rw [ends] at failed
        cases failed
        exact ⟨[], first, rest, text, rfl, held, refused, rfl⟩

end Keys

/-- Properties overlay a configuration just where they hold no text that is refused, and then each
key is left as it was overlaid. -/
theorem applyProperties_eq_ok_iff {properties : Properties} {config after : JobConfig} :
    config.applyProperties properties = (after, .ok ()) ↔
      (∀ key, Accepts properties key) ∧
        ∀ key, after.setting key = overlaid properties config key := by
  have distinct : ConfigKey.all.Nodup := by decide
  constructor
  · intro done
    have accepts := applyKeys_ok config done
    obtain ⟨other, run, settled⟩ := applyKeys_settles config distinct accepts
    obtain rfl : other = after := congrArg Prod.fst (run.symm.trans done)
    refine ⟨fun key => accepts key key.mem_all, fun key => ?_⟩
    rw [settled, if_pos key.mem_all]
  · rintro ⟨accepts, settled⟩
    obtain ⟨other, run, reached⟩ := applyKeys_settles config distinct fun key _ => accepts key
    obtain rfl : other = after := ext_setting fun key => by
      rw [reached, if_pos key.mem_all, settled]
    exact run

theorem overlaid_extend (below above : Properties) (config : JobConfig) (key : ConfigKey) :
    overlaid (below.extend above.map.entries) config key =
      if (above.get? key.name).isSome then overlaid above config key
      else overlaid below config key := by
  have held := below.get?_extend above.map key.name
  have looked : above.map.get? key.name = above.get? key.name := rfl
  rw [looked] at held
  cases found : above.get? key.name with
  | none => simp [overlaid, held, found]
  | some text => simp [overlaid, held, found]

theorem accepts_extend {below above : Properties} {key : ConfigKey} (low : Accepts below key)
    (high : Accepts above key) : Accepts (below.extend above.map.entries) key := by
  intro text held
  rw [Properties.get?_extend] at held
  rcases Option.or_eq_some_iff.mp held with found | ⟨_, found⟩
  · exact high text found
  · exact low text found

theorem applyProperties_extend {below above : Properties} {config middle final : JobConfig}
    (first : config.applyProperties below = (middle, .ok ()))
    (second : middle.applyProperties above = (final, .ok ())) :
    config.applyProperties (below.extend above.map.entries) = (final, .ok ()) := by
  obtain ⟨low, reached⟩ := applyProperties_eq_ok_iff.mp first
  obtain ⟨high, ended⟩ := applyProperties_eq_ok_iff.mp second
  refine applyProperties_eq_ok_iff.mpr
    ⟨fun key => accepts_extend (low key) (high key), fun key => ?_⟩
  rw [ended, overlaid_extend]
  cases found : above.get? key.name with
  | none => simp [overlaid, found, reached]
  | some text =>
      -- the text above sets the key whatever the overlay below made of it
      obtain ⟨changed, done⟩ := high key text found
      obtain ⟨value, sets⟩ := change_sets done
      simp [overlaid, found, done, sets]

theorem overlaid_restrict (properties : Properties) (config : JobConfig) (keys : List ConfigKey)
    (key : ConfigKey) :
    overlaid (properties.restrict (keys.map ConfigKey.name)) config key =
      if key ∈ keys then overlaid properties config key else config.setting key := by
  rw [overlaid, properties.get?_restrict]
  by_cases listed : key ∈ keys
  · rw [if_pos (List.mem_map_of_mem listed), if_pos listed, overlaid]
  · have absent : key.name ∉ keys.map ConfigKey.name := by
      intro named
      obtain ⟨other, member, same⟩ := List.mem_map.mp named
      exact listed (ConfigKey.name_inj same ▸ member)
    rw [if_neg absent, if_neg listed]

theorem accepts_restrict {properties : Properties} {keys : List ConfigKey}
    (accepts : ∀ key ∈ keys, Accepts properties key) (key : ConfigKey) :
    Accepts (properties.restrict (keys.map ConfigKey.name)) key := by
  intro text held
  rw [properties.get?_restrict] at held
  split at held
  next named =>
    obtain ⟨other, member, same⟩ := List.mem_map.mp named
    exact accepts key (ConfigKey.name_inj same ▸ member) text held
  next => cases held

theorem applyProperties_error {properties : Properties} {config left : JobConfig}
    {error : ConfigError} (failed : config.applyProperties properties = (left, .error error)) :
    ∃ before key after text, ConfigKey.all = before ++ key :: after ∧
      properties.get? key.name = some text ∧ change key text = .error error ∧
      config.applyProperties (properties.restrict (before.map ConfigKey.name)) =
        (left, .ok ()) := by
  obtain ⟨before, key, after, text, whole, held, refused, done⟩ := applyKeys_error config failed
  have distinct : before.Nodup := by
    have all : ConfigKey.all.Nodup := by decide
    rw [whole] at all
    exact all.of_append_left
  have accepts := applyKeys_ok config done
  obtain ⟨other, run, settled⟩ := applyKeys_settles config distinct accepts
  obtain rfl : other = left := congrArg Prod.fst (run.symm.trans done)
  refine ⟨before, key, after, text, whole, held, refused, applyProperties_eq_ok_iff.mpr
    ⟨accepts_restrict accepts, fun key => ?_⟩⟩
  rw [settled, overlaid_restrict]

/-- Two overlays that succeed are one of the second properties laid over the first, so the same
properties change nothing a second time; an overlay that fails leaves what the keys before the
refused one make of the configuration. -/
theorem overlays_compose (config : JobConfig) (first second : Properties) :
    (∀ middle final, config.applyProperties first = (middle, .ok ()) →
      middle.applyProperties second = (final, .ok ()) →
      config.applyProperties (first.extend second.map.entries) = (final, .ok ())) ∧
    (∀ after, config.applyProperties first = (after, .ok ()) →
      after.applyProperties first = (after, .ok ())) ∧
    ∀ left error, config.applyProperties first = (left, .error error) →
      ∃ before key after text, ConfigKey.all = before ++ key :: after ∧
        first.get? key.name = some text ∧ change key text = .error error ∧
        config.applyProperties (first.restrict (before.map ConfigKey.name)) = (left, .ok ()) := by
  refine ⟨fun middle final => applyProperties_extend, fun after done => ?_,
    fun left error => applyProperties_error⟩
  -- what was accepted once is accepted again, and what it comes to is one overlay with itself
  have accepts := (applyProperties_eq_ok_iff.mp done).1
  obtain ⟨again, run, _⟩ := applyKeys_settles after (by decide : ConfigKey.all.Nodup)
    fun key _ => accepts key
  have whole := applyProperties_extend done run
  rw [first.extend_self, done] at whole
  obtain rfl : after = again := congrArg Prod.fst whole
  exact run

/-- The second overlay sets a limit anew and adds a directory; the third is refused for its limit of
zero, when its policy is set and its level is not. -/
theorem zero_limit_leaves_policy :
    let first := Properties.ofMap (.ofList [("dagflow.dag.namespace-policy", "Separate"),
      ("dagflow.history.max-events-per-batch", "5")])
    let second := Properties.ofMap (.ofList [("dagflow.history.max-events-per-batch", " 7"),
      ("dagflow.log.dir", "/log")])
    let third := Properties.ofMap (.ofList [("dagflow.dag.namespace-policy", "separate"),
      ("dagflow.history.max-events-per-batch", "0"), ("dagflow.log.level", "WARN")])
    let once : JobConfig := { policy := .separate, history := { batchLimit := 5 } }
    let twice : JobConfig :=
      { policy := .separate, history := { batchLimit := 7 }, logDirectory := some "/log" }
    ({} : JobConfig).applyProperties (first.extend second.map.entries) = (twice, .ok ()) ∧
      once.applyProperties first = (once, .ok ()) ∧
      ∃ before key after text, ConfigKey.all = before ++ key :: after ∧
        third.get? key.name = some text ∧ change key text = .error .emptyBatches ∧
        ({} : JobConfig).applyProperties (third.restrict (before.map ConfigKey.name)) =
          ({ policy := .separate }, .ok ()) := by
  intro first second third once twice
  obtain ⟨compose, again, _⟩ := overlays_compose {} first second
  have done : ({} : JobConfig).applyProperties first = (once, .ok ()) := by decide +kernel
  have more : once.applyProperties second = (twice, .ok ()) := by decide +kernel
  have failed : ({} : JobConfig).applyProperties third =
      ({ policy := .separate }, .error .emptyBatches) := by decide +kernel
  exact ⟨compose once twice done more, again once done,
    (overlays_compose {} third first).2.2 _ _ failed⟩

end JobConfig

end ElasticJob
