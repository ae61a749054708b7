import ChipChain.Journal
import ChipChain.Model
import ChipChain.Settings.Store

/-!
# Chain settings

The settings of a chain as the store has them, with defaults where the store
has nothing. Loading writes the frequency back where it had to be taken from
elsewhere, and changes nothing else.
-/

namespace ChipChain

/-- How a chain is to be run. -/
structure Settings where
  model : Model
  chipCount : UInt16
  frequency : Frequency
  voltage : UInt16
  difficulty : UInt32
  jobInterval : Option UInt16
  overheat : Bool
  deriving DecidableEq, Repr, Inhabited

namespace Settings

def source : String := "config"

/-- The frequency in megahertz: the stored number if it is not negative, else the older whole
number, else the default. Anything but the first is written back. -/
def resolveFrequency (store : Store) (default : UInt16) : Single × Store × List Entry :=
  match (store.number? Store.Key.frequency).filter Single.isNonneg with
  | some mhz => (mhz, store, [])
  | none =>
    let mhz := Single.ofRatio (store.wordOr Store.Key.legacyFrequency default).toNat 1
    (mhz, store.set Store.Key.frequency (.number mhz),
      [⟨.debug, source, "Migrating legacy frequency setting",
        [("frequency_mhz", logNumber mhz.toFloat)]⟩])

def describe (s : Settings) : String :=
  let model := s.model.name.toList.head?.toList ++ (s.model.name.toList.drop 1).map Char.toLower
  let interval :=
    match s.jobInterval with
    | some ms => s!"Some({ms})"
    | none => "None"
  s!"AsicSettings \x7b model: {String.ofList model}, chip_count: {s.chipCount}, " ++
    s!"frequency: Frequency \x7b hz: {s.frequency.hz} \x7d, voltage_mv: {s.voltage}, " ++
    s!"difficulty: {s.difficulty}, job_interval_ms: {interval}, overheat: {s.overheat} \x7d"

/-- The default frequency of a model in whole megahertz. -/
def defaultMhz (model : Model) : UInt16 :=
  UInt16.ofNat (model.family.defaultFrequency.hz / 1000000)

/-- Load the settings: the outcome, the store afterwards, and the reports. -/
def load (store : Store) : Except Model.Unknown Settings × Store × List Entry :=
  match store.text? Store.Key.model with
  | none => (.error ⟨""⟩, store, [])
  | some name =>
    match Model.parse name with
    | .error e => (.error e, store, [])
    | .ok model =>
      let (mhz, store, reports) := resolveFrequency store (defaultMhz model)
      let settings : Settings :=
        { model
          chipCount := store.wordOr Store.Key.chipCount 1
          frequency := .ofMhz mhz
          voltage := store.wordOr Store.Key.voltage model.family.defaultVoltage
          difficulty :=
            ((store.word? Store.Key.difficulty).map UInt16.toUInt32).getD
              model.family.defaultDifficulty
          jobInterval := store.word? Store.Key.jobInterval
          overheat := store.wordOr Store.Key.overheat 0 != 0 }
      (.ok settings, store,
        reports ++ [⟨.debug, source, "Loaded ASIC settings", [("settings", settings.describe)]⟩])

end Settings

end ChipChain
