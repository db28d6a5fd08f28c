import Mathlib
import TimelockAuction.Config
import TimelockAuction.Proofs.Json.Reading

/-!
# A configuration overlays the defaults and is validated as a whole

A text may leave out any of the settings and name the others in any order. What it names replaces the
default, and what comes of that is checked, not the text: a text is refused for a setting that it names
out of range, and a configuration that is given back is always one that a server can run with.

* `AuctionConfig.get_overlay`: what the settings of a text make of the defaults.
* `AuctionConfig.ofJson?_members`: the object of such settings.
* `AuctionConfig.validate_eq_ok_iff`, `AuctionConfig.exists_fault`: which configurations are refused.
* `AuctionConfig.ofText_eq_ok_iff`: which texts lead to a configuration.
* `AuctionConfig.ofText_overlays_defaults`: all texts.
-/

namespace TimelockAuction.AuctionConfig

variable {config : AuctionConfig}

/-! ## Settings -/

inductive Setting
  | auctionTime
  | solverWorkers
  | modulusBits
  | roundsPerStep
deriving DecidableEq

/-- The name of a setting in a text. -/
def Setting.name : Setting → String
  | auctionTime => "auction_time"
  | solverWorkers => "solver_workers"
  | modulusBits => "rsw_modulus_bits"
  | roundsPerStep => "hash_chain_rounds_per_step"

theorem Setting.name_injective : Function.Injective Setting.name := by
  intro setting other h
  cases setting <;> cases other <;> first | rfl | exact absurd h (by decide)

def get (config : AuctionConfig) : Setting → UInt64
  | .auctionTime => config.auctionTime
  | .solverWorkers => config.solverWorkers
  | .modulusBits => config.modulusBits
  | .roundsPerStep => config.roundsPerStep

def replace (config : AuctionConfig) (value : UInt64) : Setting → AuctionConfig
  | .auctionTime => { config with auctionTime := value }
  | .solverWorkers => { config with solverWorkers := value }
  | .modulusBits => { config with modulusBits := value }
  | .roundsPerStep => { config with roundsPerStep := value }

theorem get_replace (config : AuctionConfig) (value : UInt64) (setting other : Setting) :
    (config.replace value setting).get other = if other = setting then value else config.get other := by
  cases setting <;> cases other <;> rfl

section Overlay

variable {settings : List (Setting × UInt64)}

/-- The configuration with its settings replaced, one after the other. -/
def overlay (config : AuctionConfig) (settings : List (Setting × UInt64)) : AuctionConfig :=
  settings.foldl (fun config setting => config.replace setting.2 setting.1) config

/-- Settings that are named once have the value they are named with, and the others keep theirs. -/
theorem get_overlay (h : (settings.map Prod.fst).Nodup) (setting : Setting) :
    (config.overlay settings).get setting = (settings.lookup setting).getD (config.get setting) := by
  induction settings generalizing config with
  | nil => rfl
  | cons first settings ih =>
    obtain ⟨named, value⟩ := first
    rw [List.map_cons, List.nodup_cons] at h
    have hlater : (config.overlay ((named, value) :: settings)).get setting =
        (settings.lookup setting).getD ((config.replace value named).get setting) := ih h.2
    rw [hlater, get_replace, List.lookup_cons]
    by_cases hnamed : setting = named
    · subst hnamed
      have hnone : settings.lookup setting = none := by
        apply List.lookup_eq_none_iff.mpr
        intro other hother
        simp only [bne_iff_ne]
        exact fun heq => h.1 (List.mem_map.mpr ⟨other, hother, heq.symm⟩)
      simp [hnone]
    · have hbeq : (setting == named) = false := by simpa using hnamed
      rw [if_neg hnamed, hbeq]

/-! ## Texts -/

/-- The members of an object that names these settings, in this order. -/
def members (settings : List (Setting × UInt64)) : List (String × Json) :=
  settings.map fun setting => (setting.1.name, Json.nat setting.2.toNat)

theorem nodup_members (h : (settings.map Prod.fst).Nodup) :
    ((members settings).map Prod.fst).Nodup := by
  have hnames : (members settings).map Prod.fst = (settings.map Prod.fst).map Setting.name := by
    simp [members]
  rw [hnames]
  exact h.map Setting.name_injective

theorem lookup_members (settings : List (Setting × UInt64)) (setting : Setting) :
    (members settings).lookup setting.name =
      (settings.lookup setting).map fun value => Json.nat value.toNat := by
  induction settings with
  | nil => rfl
  | cons first settings ih =>
    have hbeq : (setting.name == first.1.name) = (setting == first.1) := by
      rw [Bool.eq_iff_iff, beq_iff_eq, beq_iff_eq, Setting.name_injective.eq_iff]
    rw [members, List.map_cons, List.lookup_cons, List.lookup_cons, hbeq]
    cases setting == first.1 with
    | true => rfl
    | false => exact ih

theorem setting?_lookup (h : (settings.map Prod.fst).Nodup) (setting : Setting) :
    setting? (default.get setting) ((members settings).lookup setting.name) =
      some ((default.overlay settings).get setting) := by
  rw [lookup_members, get_overlay h]
  cases settings.lookup setting with
  | none => rfl
  | some value => exact Json.word?_nat value

/-- What an object of settings describes. -/
theorem ofJson?_members (h : (settings.map Prod.fst).Nodup) :
    ofJson? (Json.ofFields (members settings)) = some (default.overlay settings) := by
  have hnames : fieldNames = [Setting.auctionTime.name, Setting.solverWorkers.name,
      Setting.modulusBits.name, Setting.roundsPerStep.name] := rfl
  have htime := setting?_lookup h .auctionTime
  have hworkers := setting?_lookup h .solverWorkers
  have hbits := setting?_lookup h .modulusBits
  have hrounds := setting?_lookup h .roundsPerStep
  simp only [get] at htime hworkers hbits hrounds
  rw [ofJson?, Json.record?_ofFields_of_nodup (nodup_members h), hnames]
  simp [htime, hworkers, hbits, hrounds]

theorem isSpelled_members (settings : List (Setting × UInt64)) :
    (Json.ofFields (members settings)).IsSpelled := by
  apply Json.isSpelled_ofFields
  intro field hfield
  obtain ⟨setting, -, rfl⟩ := List.mem_map.mp hfield
  exact Json.isSpelled_nat _

end Overlay

/-! ## Validation -/

/-- What a server can run with. -/
structure IsRunnable (config : AuctionConfig) : Prop where
  auctionTime_pos : 0 < config.auctionTime
  le_modulusBits : 128 ≤ config.modulusBits
  roundsPerStep_pos : 0 < config.roundsPerStep

/-- The fault names a setting that is out of range. -/
inductive Suffers (config : AuctionConfig) : ConfigFault → Prop
  | zeroAuctionTime : config.auctionTime = 0 → Suffers config .zeroAuctionTime
  | modulusTooSmall : config.modulusBits < 128 → Suffers config (.modulusTooSmall 128)
  | zeroRoundsPerStep : config.roundsPerStep = 0 → Suffers config .zeroRoundsPerStep

/-- A configuration that a server cannot run with is refused for a setting that is out of range. -/
theorem exists_fault (h : ¬ config.IsRunnable) :
    ∃ fault, config.Suffers fault ∧ config.validate = .error (.configuration fault) := by
  unfold validate
  split_ifs with htime hbits hrounds
  · exact ⟨_, .zeroAuctionTime htime, rfl⟩
  · exact ⟨_, .modulusTooSmall hbits, rfl⟩
  · exact ⟨_, .zeroRoundsPerStep hrounds, rfl⟩
  · exact absurd ⟨UInt64.pos_iff_ne_zero.mpr htime, UInt64.not_lt.mp hbits,
      UInt64.pos_iff_ne_zero.mpr hrounds⟩ h

theorem validate_of_isRunnable (h : config.IsRunnable) : config.validate = .ok () := by
  unfold validate minModulusBits
  rw [if_neg (UInt64.pos_iff_ne_zero.mp h.auctionTime_pos),
    if_neg (UInt64.not_lt.mpr h.le_modulusBits),
    if_neg (UInt64.pos_iff_ne_zero.mp h.roundsPerStep_pos)]
  rfl

theorem validate_eq_ok_iff : config.validate = .ok () ↔ config.IsRunnable := by
  constructor
  · intro hvalid
    by_contra h
    obtain ⟨fault, -, hfault⟩ := exists_fault h
    exact nomatch hvalid.symm.trans hfault
  · exact validate_of_isRunnable

/-! ## What a text leads to -/

section Texts

variable {text : String}

/-- A text leads to the configuration that it describes, if a server can run with it. -/
theorem ofText_eq_ok_iff :
    ofText text = .ok config ↔
      (Json.parse? text).bind ofJson? = some config ∧ config.IsRunnable := by
  unfold ofText
  cases (Json.parse? text).bind ofJson? with
  | none => exact iff_of_false (fun h => nomatch h) (fun h => nomatch h.1)
  | some read =>
    rw [Option.some.injEq]
    by_cases hrunnable : read.IsRunnable
    · simp only [validate_of_isRunnable hrunnable]
      constructor
      · intro h
        cases h
        exact ⟨rfl, hrunnable⟩
      · rintro ⟨rfl, -⟩
        rfl
    · obtain ⟨fault, -, hfault⟩ := exists_fault hrunnable
      simp only [hfault]
      refine iff_of_false (fun h => nomatch h) ?_
      rintro ⟨rfl, h⟩
      exact hrunnable h

theorem exists_fault_of_ofText (htext : (Json.parse? text).bind ofJson? = some config)
    (h : ¬ config.IsRunnable) :
    ∃ fault, config.Suffers fault ∧ ofText text = .error (.configuration fault) := by
  obtain ⟨fault, hsuffers, hfault⟩ := exists_fault h
  refine ⟨fault, hsuffers, ?_⟩
  rw [ofText, htext]
  simp only [hfault]
  rfl

end Texts

/-- The settings of a configuration, all of them. -/
def settings (config : AuctionConfig) : List (Setting × UInt64) :=
  [.auctionTime, .solverWorkers, .modulusBits, .roundsPerStep].map fun setting =>
    (setting, config.get setting)

theorem nodup_settings (config : AuctionConfig) : (config.settings.map Prod.fst).Nodup := by
  change [Setting.auctionTime, .solverWorkers, .modulusBits, .roundsPerStep].Nodup
  decide

theorem overlay_settings (config other : AuctionConfig) : config.overlay other.settings = other := rfl

theorem toJson_eq (config : AuctionConfig) : config.toJson = Json.ofFields (members config.settings) :=
  rfl

/-- **A configuration overlays the defaults and is validated as a whole.** Settings that are named once,
whichever they are and in whatever order, can be written as an object. Every text of that object leads to
the defaults with these settings replaced, if a server can run with that, and otherwise to a fault of a
setting that is out of range. The text of a whole configuration leads back to it exactly if it passes the
validation, and no text at all leads to a configuration that does not. -/
theorem ofText_overlays_defaults :
    (∀ settings : List (Setting × UInt64),
      Json.parse? (Json.ofFields (members settings)).render = some (Json.ofFields (members settings))) ∧
    (∀ settings : List (Setting × UInt64), (settings.map Prod.fst).Nodup →
      (∀ setting, (default.overlay settings).get setting =
        (settings.lookup setting).getD (default.get setting)) ∧
      ∀ text, Json.parse? text = some (Json.ofFields (members settings)) →
        ((default.overlay settings).IsRunnable → ofText text = .ok (default.overlay settings)) ∧
        (¬ (default.overlay settings).IsRunnable →
          ∃ fault, (default.overlay settings).Suffers fault ∧
            ofText text = .error (.configuration fault))) ∧
    (∀ config : AuctionConfig,
      ofText config.toJson.render = .ok config ↔ config.validate = .ok ()) ∧
    ∀ text config, ofText text = .ok config → config.validate = .ok () := by
  have hrender : ∀ settings : List (Setting × UInt64),
      Json.parse? (Json.ofFields (members settings)).render =
        some (Json.ofFields (members settings)) :=
    fun settings => Json.parse?_render (isSpelled_members settings)
  have hread : ∀ settings : List (Setting × UInt64), (settings.map Prod.fst).Nodup →
      ∀ text, Json.parse? text = some (Json.ofFields (members settings)) →
        (Json.parse? text).bind ofJson? = some (default.overlay settings) := by
    intro settings hnodup text htext
    rw [htext, Option.bind_some, ofJson?_members hnodup]
  refine ⟨hrender, ?_, ?_, ?_⟩
  · intro settings hnodup
    refine ⟨get_overlay hnodup, fun text htext => ?_⟩
    have hdescribed := hread settings hnodup text htext
    exact ⟨fun h => ofText_eq_ok_iff.mpr ⟨hdescribed, h⟩, exists_fault_of_ofText hdescribed⟩
  · intro config
    have hdescribed := hread config.settings config.nodup_settings _ (hrender config.settings)
    rw [← toJson_eq, overlay_settings] at hdescribed
    rw [ofText_eq_ok_iff, and_iff_right hdescribed, validate_eq_ok_iff]
  · intro text config h
    exact validate_of_isRunnable (ofText_eq_ok_iff.mp h).2

end TimelockAuction.AuctionConfig
