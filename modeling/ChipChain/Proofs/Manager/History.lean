import ChipChain.Proofs.Manager.Recording
import ChipChain.Proofs.Ramp.Walk
import ChipChain.Settings.Load

/-!
# What a manager asks for

A manager looks at the settings between other incidents, and each look may ask
something of the chain and of the regulator. One look keeps the manager's memory in
agreement with what the settings have asked for so far (`agrees_visit`), so every look
of a history asks for what has changed and for nothing more
(`requests_follow_settings`).
-/

namespace ChipChain

theorem Settings.load_frequency {store kept : Store} {settings : Settings} {reports : List Entry}
    (h : load store = (.ok settings, kept, reports)) :
    ∃ mhz, kept.number? Store.Key.frequency = some mhz ∧ settings.frequency = .ofMhz mhz := by
  have hresolved : ∀ default, ∃ mhz,
      (resolveFrequency store default).2.1.number? Store.Key.frequency = some mhz ∧
        (resolveFrequency store default).1 = mhz := by
    intro default
    unfold resolveFrequency
    split
    case h_1 mhz hstored => exact ⟨mhz, (Option.filter_eq_some_iff.1 hstored).1, rfl⟩
    case h_2 => exact ⟨_, by rw [Store.number?, Store.get?_set, if_pos rfl], rfl⟩
  unfold load at h
  split at h
  case h_1 => cases h
  case h_2 =>
    split at h
    case h_1 => cases h
    case h_2 model _ =>
      obtain ⟨mhz, hkept, hmhz⟩ := hresolved (defaultMhz model)
      cases h
      exact ⟨mhz, hkept, congrArg Frequency.ofMhz hmhz⟩

namespace Manager

/-! ## Histories -/

/-- Something that happens to a manager or around it. -/
inductive Incident where
  | write (key : String) (value : Setting)
  | equip (regulator : Regulator)
  /-- The link will answer and fail otherwise than it would have. -/
  | rearrange (replies : List Reply) (sendFault : Option (Nat × LinkError))
      (flushFault baudFault : Option LinkError)
  | look

/-- What an incident other than a look does. -/
def Incident.befall (w : World) : Incident → World
  | write key value => { w with settings := w.settings.set key value }
  | equip regulator => { w with regulator }
  | rearrange replies sendFault flushFault baudFault =>
    { w with line := { w.line with replies, sendFault, flushFault, baudFault } }
  | look => w

/-- One look: the world it found, what it asked for, what the manager then remembers, and the world
it left. -/
structure Visit where
  found : World
  requests : List Request
  manager : Manager
  left : World

def visit (c : Controller) (m : Manager) (w : World) : Visit :=
  let (manager, left) := (m.poll c).finish w
  let ((_, requests), _) := ((m.look (recorded c) c.driver.family).run []).finish w
  ⟨w, requests, manager, left⟩

/-- The looks of a history, for a manager and a world to begin with. -/
def visits (c : Controller) : Manager → World → List Incident → List Visit
  | _, _, [] => []
  | m, w, .look :: rest =>
    let here := visit c m w
    here :: visits c here.manager here.left rest
  | m, w, incident :: rest => visits c m (incident.befall w) rest

theorem exists_visit (c : Controller) (m : Manager) (w : World) :
    ∃ moved left, (m.poll c : Routine Empty Manager).run w =
        (.ok (m.looked c.driver.family w.settings moved), left) ∧
      visit c m w = ⟨w, m.lookRequests c.driver.family w moved,
        m.looked c.driver.family w.settings moved, left⟩ ∧
      Leaves c m w moved left := by
  obtain ⟨moved, left, hpoll, hrecorded, hleaves⟩ := run_look_recorded c m [] w
  refine ⟨moved, left, hpoll, ?_, hleaves⟩
  rw [visit, Routine.finish_of_run hpoll, Routine.finish_of_run hrecorded]
  rfl

/-! ## What the settings have asked for -/

namespace Visit

/-- The frequency that the settings ask for. -/
def asks? (v : Visit) : Option Frequency :=
  ((v.found.settings.number? Store.Key.frequency).filter Single.isPositive).map .ofMhz

def targets (v : Visit) : List Frequency :=
  v.requests.filterMap Request.target?

def reached (v : Visit) : List Frequency :=
  v.requests.filterMap Request.reached?

def voltages (v : Visit) : List Single :=
  v.requests.filterMap Request.volts?

end Visit

/-- The frequency that was asked for last, the first one included. -/
def asked (first : Frequency) (seen : List Visit) : Frequency :=
  seen.foldl (fun last v => v.asks?.getD last) first

theorem asked_concat (first : Frequency) (seen : List Visit) (v : Visit) :
    asked first (seen ++ [v]) = v.asks?.getD (asked first seen) := by
  rw [asked, List.foldl_append]
  rfl

theorem asked_eq_first {first : Frequency} {seen : List Visit}
    (h : ∀ v ∈ seen, v.asks?.getD first = first) : asked first seen = first := by
  induction seen using List.reverseRecOn with
  | nil => rfl
  | append_singleton seen last ih =>
      rw [asked_concat, ih fun v hv => h v (List.mem_append_left _ hv)]
      exact h last (List.mem_append_right _ List.mem_cons_self)

theorem wantedFrequency_eq (m : Manager) (v : Visit) :
    m.wantedFrequency v.found.settings = v.asks?.getD m.requested := by
  rw [wantedFrequency, Visit.asks?]
  cases v.found.settings.number? Store.Key.frequency with
  | none => rfl
  | some mhz => cases h : mhz.isPositive <;> simp [Option.filter, h]

/-- What a manager remembers agrees with the looks it has taken. -/
structure Agrees (family : Family) (first : Frequency) (seen : List Visit) (m : Manager) :
    Prop where
  requested : m.requested = asked first seen
  reached : m.reached = (seen.flatMap Visit.reached).getLastD first
  voltage : m.voltage = seen.getLast?.map fun v => wantedVoltage family v.found.settings

theorem Agrees.start (family : Family) (first : Frequency) :
    Agrees family first [] (.startingAt first) :=
  ⟨rfl, rfl, rfl⟩

/-- A look asks for what the settings have changed to since the looks before, and for nothing
else. -/
structure Visit.Follows (family : Family) (first : Frequency) (before : List Visit) (v : Visit) :
    Prop where
  targets : v.targets =
    if asked first (before ++ [v]) = asked first before then [] else [asked first (before ++ [v])]
  reached : v.manager.reached = ((before ++ [v]).flatMap Visit.reached).getLastD first
  voltages : v.voltages =
    if before.getLast?.map (fun last => wantedVoltage family last.found.settings) =
        some (wantedVoltage family v.found.settings) ∨ v.found.regulator = .absent then []
    else [volts (wantedVoltage family v.found.settings)]

/-! ## One look after others -/

section

variable {family : Family} {first : Frequency} {before : List Visit} {m : Manager}

theorem volts?_regulated (regulator : Regulator) (voltage : UInt16) :
    (regulated regulator voltage).filterMap Request.volts? =
      if regulator = .absent then [] else [volts voltage] := by
  unfold regulated
  split <;> rfl

theorem target?_voltageRequests (family : Family) (m : Manager) (w : World) :
    (m.voltageRequests family w).filterMap Request.target? = [] := by
  unfold voltageRequests regulated
  split_ifs <;> rfl

theorem reached?_voltageRequests (family : Family) (m : Manager) (w : World) :
    (m.voltageRequests family w).filterMap Request.reached? = [] := by
  unfold voltageRequests regulated
  split_ifs <;> rfl

theorem volts?_clockRequests (m : Manager) (store : Store) (moved : Bool) :
    (m.clockRequests store moved).filterMap Request.volts? = [] := by
  unfold clockRequests
  split_ifs <;> rfl

theorem target?_clockRequests (m : Manager) (store : Store) (moved : Bool) :
    (m.clockRequests store moved).filterMap Request.target? =
      if m.wantedFrequency store = m.requested then [] else [m.wantedFrequency store] := by
  unfold clockRequests
  split_ifs <;> rfl

theorem reached_followed (m : Manager) (store : Store) (moved : Bool) :
    (m.followed store moved).reached =
      ((m.clockRequests store moved).filterMap Request.reached?).getLastD m.reached := by
  unfold followed clockRequests
  split_ifs
  · rfl
  · cases moved <;> rfl

theorem requested_followed (m : Manager) (store : Store) (moved : Bool) :
    (m.followed store moved).requested = m.wantedFrequency store := by
  unfold followed
  split_ifs with hsame
  · exact hsame.symm
  · rfl

theorem voltage_followed (m : Manager) (store : Store) (moved : Bool) :
    (m.followed store moved).voltage = m.voltage := by
  unfold followed
  split_ifs <;> rfl

variable (c : Controller)

/-- After a look a manager still agrees with all looks that it has taken. -/
theorem agrees_visit (h : Agrees c.driver.family first before m) (w : World) :
    Agrees c.driver.family first (before ++ [visit c m w]) (visit c m w).manager := by
  obtain ⟨moved, left, -, hvisit, -⟩ := exists_visit c m w
  have hmanager : (visit c m w).manager =
      (m.afterVoltage (wantedVoltage c.driver.family w.settings)).followed w.settings moved := by
    rw [hvisit]
    rfl
  have hreached : (visit c m w).reached =
      (m.clockRequests w.settings moved).filterMap Request.reached? := by
    rw [hvisit, Visit.reached, lookRequests, List.filterMap_append, reached?_voltageRequests,
      List.nil_append]
  refine ⟨?_, ?_, ?_⟩
  · rw [hmanager, requested_followed, asked_concat, ← h.requested]
    exact wantedFrequency_eq m (visit c m w)
  · rw [hmanager, reached_followed, List.flatMap_append, List.flatMap_singleton,
      Ramp.getLastD_append, hreached, ← h.reached]
    rfl
  · rw [hmanager, voltage_followed, List.getLast?_concat]
    rfl

theorem follows_visit (h : Agrees c.driver.family first before m) (w : World) :
    (visit c m w).Follows c.driver.family first before := by
  obtain ⟨moved, left, -, hvisit, -⟩ := exists_visit c m w
  have hwanted : asked first (before ++ [visit c m w]) = m.wantedFrequency w.settings := by
    rw [asked_concat, ← h.requested]
    exact (wantedFrequency_eq m (visit c m w)).symm
  refine ⟨?_, (agrees_visit c h w).reached, ?_⟩
  · rw [hwanted, ← h.requested, hvisit, Visit.targets, lookRequests, List.filterMap_append,
      target?_voltageRequests, target?_clockRequests, List.nil_append]
  · rw [← h.voltage, hvisit, Visit.voltages, lookRequests, List.filterMap_append,
      volts?_clockRequests, List.append_nil, voltageRequests]
    split_ifs <;> simp_all [volts?_regulated]

end

/-! ## Whole histories -/

/-- What holds at the beginning and is kept by every incident holds at every look. -/
theorem visits_split (c : Controller) {P : List Visit → Manager → World → Prop}
    {incidents : List Incident}
    (hbefall : ∀ incident ∈ incidents, incident ≠ .look →
      ∀ seen m w, P seen m w → P seen m (incident.befall w))
    (hlook : ∀ seen m w, P seen m w →
      P (seen ++ [visit c m w]) (visit c m w).manager (visit c m w).left)
    (seen : List Visit) {m : Manager} {w : World} (hstart : P seen m w)
    {before after : List Visit} {v : Visit}
    (hsplit : visits c m w incidents = before ++ v :: after) :
    ∃ m w, v = visit c m w ∧ P (seen ++ before) m w := by
  induction incidents generalizing m w seen before with
  | nil => simp [visits] at hsplit
  | cons incident rest ih =>
      have hlater := fun later (hmem : later ∈ rest) =>
        hbefall later (List.mem_cons_of_mem incident hmem)
      have hothers := hbefall incident List.mem_cons_self
      cases incident with
      | look =>
          rw [visits] at hsplit
          cases before with
          | nil =>
              obtain ⟨rfl, -⟩ := List.cons.inj hsplit
              exact ⟨m, w, rfl, by rwa [List.append_nil]⟩
          | cons here before =>
              obtain ⟨rfl, hrest⟩ := List.cons.inj hsplit
              have hnext := ih hlater _ (hlook seen m w hstart) hrest
              rwa [List.append_assoc] at hnext
      | _ => exact ih hlater seen (hothers nofun seen m w hstart) hsplit

theorem settings_left (c : Controller) (m : Manager) (w : World) :
    (visit c m w).left.settings = w.settings := by
  obtain ⟨_, _, hpoll, hvisit, -⟩ := exists_visit c m w
  rw [hvisit, ← Routine.run_settings (m.poll c : Routine Empty Manager) w, hpoll]

theorem get?_of_mem_visits (c : Controller) {key : String} {m : Manager} {w : World}
    {incidents : List Incident} (hkept : ∀ value, .write key value ∉ incidents) {v : Visit}
    (hv : v ∈ visits c m w incidents) :
    v.found.settings.get? key = w.settings.get? key := by
  have hbefall : ∀ incident ∈ incidents, incident ≠ .look → ∀ w' : World,
      w'.settings.get? key = w.settings.get? key →
        (incident.befall w').settings.get? key = w.settings.get? key := by
    intro incident hmem _ w' hsame
    cases incident with
    | write other value =>
        have hother : key ≠ other := by
          rintro rfl
          exact hkept value hmem
        rw [← hsame]
        exact (Store.get?_set ..).trans (if_neg hother)
    | _ => exact hsame
  obtain ⟨before, after, hsplit⟩ := List.append_of_mem hv
  obtain ⟨m, w', rfl, hsame⟩ := visits_split c
    (P := fun _ _ w' => w'.settings.get? key = w.settings.get? key)
    (fun incident hmem hne _ _ => hbefall incident hmem hne)
    (fun _ m w' hsame => by rwa [settings_left]) [] rfl hsplit
  exact hsame

/-- Over every history, each look asks the chain once for the frequency that the settings have
changed to, and the regulator once for such a voltage; and a manager that begins with the frequency
that was loaded asks for none while nobody writes that setting. -/
theorem requests_follow_settings (c : Controller) (first : Frequency) (w : World)
    (incidents : List Incident) :
    (∀ before v after, visits c (.startingAt first) w incidents = before ++ v :: after →
      v.Follows c.driver.family first before) ∧
    ∀ store settings reports, Settings.load store = (.ok settings, w.settings, reports) →
      settings.frequency = first → (∀ value, .write Store.Key.frequency value ∉ incidents) →
      ∀ v ∈ visits c (.startingAt first) w incidents, v.targets = [] := by
  have hfollows : ∀ before v after, visits c (.startingAt first) w incidents = before ++ v :: after →
      v.Follows c.driver.family first before := by
    intro before v after hsplit
    obtain ⟨m, w, rfl, hagrees⟩ :=
      visits_split c (P := fun seen m _ => Agrees c.driver.family first seen m)
        (fun _ _ _ _ _ _ h => h) (fun _ _ w h => agrees_visit c h w)
        [] (Agrees.start c.driver.family first) hsplit
    exact follows_visit c hagrees w
  refine ⟨hfollows, ?_⟩
  intro store settings reports hload hfirst hkept v hv
  obtain ⟨mhz, hstored, hmhz⟩ := Settings.load_frequency hload
  have hasks : ∀ v ∈ visits c (.startingAt first) w incidents, v.asks?.getD first = first := by
    intro v hv
    have hsame : v.found.settings.number? Store.Key.frequency = some mhz := by
      rw [← hstored, Store.number?, Store.number?, get?_of_mem_visits c hkept hv]
    rw [Visit.asks?, hsame]
    cases hpositive : mhz.isPositive <;> simp [Option.filter, hpositive, ← hfirst, hmhz]
  obtain ⟨before, after, hsplit⟩ := List.append_of_mem hv
  rw [hsplit] at hasks
  have hbefore := asked_eq_first fun v hv => hasks v (List.mem_append_left _ hv)
  have hv' := hasks v (List.mem_append_right _ List.mem_cons_self)
  rw [(hfollows before v after hsplit).targets, asked_concat, hbefore, hv', if_pos rfl]

/-- On a chain of BM1397 chips a frequency is written between two looks; on one of BM1370 chips, whose
frequency was taken from the older setting, a voltage is. -/
theorem requests_follow_settings_of_written :
    let rewritten : List Incident :=
      [.look, .write Store.Key.frequency (.number (.ofRatio 500 1)), .look]
    let migrated : Store :=
      ⟨[(Store.Key.model, .text "BM1370"), (Store.Key.legacyFrequency, .word 490)]⟩
    let loaded : World :=
      { World.fresh .bm1370 with settings := (Settings.load migrated).2.1, regulator := .working }
    let equipped : List Incident := [.look, .write Store.Key.voltage (.word 1200), .look]
    (∃ first second,
      visits (.ofModel .bm1397 none) (.startingAt ⟨425000000⟩) (World.fresh .bm1397) rewritten =
        [first, second] ∧
      first.Follows Model.bm1397.family ⟨425000000⟩ [] ∧
      second.Follows Model.bm1397.family ⟨425000000⟩ [first]) ∧
    ∀ v ∈ visits (.ofModel .bm1370 none) (.startingAt ⟨490000000⟩) loaded equipped,
      v.targets = [] := by
  intro rewritten migrated loaded equipped
  refine ⟨⟨_, _, rfl, ?_, ?_⟩, ?_⟩
  · exact (requests_follow_settings (.ofModel .bm1397 none) ⟨425000000⟩ (World.fresh .bm1397)
      rewritten).1 [] _ _ rfl
  · exact (requests_follow_settings (.ofModel .bm1397 none) ⟨425000000⟩ (World.fresh .bm1397)
      rewritten).1 [_] _ [] rfl
  · have hloads : (Settings.load migrated).1.toOption.map Settings.frequency =
        some ⟨490000000⟩ := by decide +kernel
    obtain ⟨settings, hsettings, hfrequency⟩ := Option.map_eq_some_iff.1 hloads
    have hload : Settings.load migrated =
        (.ok settings, loaded.settings, (Settings.load migrated).2.2) := by
      refine Prod.ext ?_ rfl
      cases hoption : (Settings.load migrated).1 with
      | ok value =>
          rw [hoption] at hsettings
          exact congrArg Except.ok (Option.some.inj hsettings)
      | error e =>
          rw [hoption] at hsettings
          cases hsettings
    refine (requests_follow_settings (.ofModel .bm1370 none) ⟨490000000⟩ loaded equipped).2
      migrated settings _ hload hfrequency ?_
    intro value hmem
    simp [equipped, Store.Key.frequency, Store.Key.voltage] at hmem

end Manager

end ChipChain
