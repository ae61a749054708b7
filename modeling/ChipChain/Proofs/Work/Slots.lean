import ChipChain.Proofs.Work.Ledger
import Mathlib.Data.List.Induction

/-!
# Slots for work

Messages assign works to slots in turn: the first work takes the first identifier, the
next one the next, and cleaning empties all slots without starting the identifiers over.
A registry that holds what the messages say (`Registry.Holds`) goes on doing so when a work
is installed or all jobs are forgotten, and the number of its live jobs follows.
-/

namespace ChipChain

theorem IdAllocator.period_pos (step : UInt8) : 0 < period step :=
  Nat.div_pos (Nat.gcd_le_left _ (by decide)) (Nat.gcd_pos_of_pos_left _ (by decide))

/-! ## What messages say -/

def WorkMessage.job? : WorkMessage → Option Job
  | work job => some job
  | cleanJobs => none

def works (messages : List WorkMessage) : List Job :=
  messages.filterMap WorkMessage.job?

/-- How many works have come since jobs were last cleaned away. -/
def worksSinceClean (messages : List WorkMessage) : Nat :=
  messages.foldl (fun count message => match message with
    | .work _ => count + 1
    | .cleanJobs => 0) 0

section

variable (messages : List WorkMessage)

theorem works_concat_work (job : Job) :
    works (messages ++ [.work job]) = works messages ++ [job] := by
  simp [works, WorkMessage.job?]

theorem works_concat_cleanJobs : works (messages ++ [.cleanJobs]) = works messages := by
  simp [works, WorkMessage.job?]

theorem worksSinceClean_concat_work (job : Job) :
    worksSinceClean (messages ++ [.work job]) = worksSinceClean messages + 1 := by
  simp [worksSinceClean]

theorem worksSinceClean_concat_cleanJobs :
    worksSinceClean (messages ++ [.cleanJobs]) = 0 := by
  simp [worksSinceClean]

theorem worksSinceClean_le : worksSinceClean messages ≤ (works messages).length := by
  induction messages using List.reverseRecOn with
  | nil => simp [worksSinceClean]
  | append_singleton messages message ih =>
      cases message with
      | work job =>
          rw [worksSinceClean_concat_work, works_concat_work, List.length_append]
          simpa using ih
      | cleanJobs => simp [worksSinceClean_concat_cleanJobs]

end

/-- The work with this number, counted from zero, is the last one under its identifier since jobs
were last cleaned away. -/
structure LastUnder (step : UInt8) (messages : List WorkMessage) (id : UInt8) (job : Job)
    (number : Nat) : Prop where
  work : (works messages)[number]? = some job
  drawn : IdAllocator.nth step (number + 1) = id
  recent : (works messages).length ≤ number + worksSinceClean messages
  last : ∀ later, number < later → later < (works messages).length →
    IdAllocator.nth step (later + 1) ≠ id

namespace LastUnder

variable {step id : UInt8} {messages : List WorkMessage} {job other : Job} {number : Nat}

theorem lt (h : LastUnder step messages id job number) : number < (works messages).length :=
  (List.getElem?_eq_some_iff.1 h.work).1

theorem not_cleaned : ¬ LastUnder step (messages ++ [.cleanJobs]) id job number := by
  intro h
  have hlt := h.lt
  have hrecent := h.recent
  rw [worksSinceClean_concat_cleanJobs] at hrecent
  omega

theorem concat_own (hid : IdAllocator.nth step ((works messages).length + 1) = id) :
    LastUnder step (messages ++ [.work other]) id job number ↔
      number = (works messages).length ∧ job = other := by
  constructor
  · intro h
    have hlt := h.lt
    have hlast := h.last (works messages).length
    simp only [works_concat_work, List.length_append, List.length_singleton] at hlt hlast
    have hnumber : number = (works messages).length := by
      by_contra hne
      exact hlast (by omega) (by omega) hid
    have hwork := h.work
    rw [works_concat_work, hnumber, List.getElem?_concat_length] at hwork
    exact ⟨hnumber, (Option.some.inj hwork).symm⟩
  · rintro ⟨rfl, rfl⟩
    refine ⟨by simp [works_concat_work], hid, ?_, ?_⟩
    · simp [works_concat_work, worksSinceClean_concat_work]
    · intro later hlater hlt
      rw [works_concat_work, List.length_append, List.length_singleton] at hlt
      omega

theorem concat_other (hid : IdAllocator.nth step ((works messages).length + 1) ≠ id) :
    LastUnder step (messages ++ [.work other]) id job number ↔
      LastUnder step messages id job number := by
  constructor
  · intro h
    have hne : number ≠ (works messages).length := by
      rintro rfl
      exact hid h.drawn
    have hlt : number < (works messages).length := by
      have hlt := h.lt
      rw [works_concat_work, List.length_append, List.length_singleton] at hlt
      omega
    have hwork := h.work
    have hrecent := h.recent
    rw [works_concat_work, List.getElem?_append_left hlt] at hwork
    rw [works_concat_work, worksSinceClean_concat_work, List.length_append,
      List.length_singleton] at hrecent
    refine ⟨hwork, h.drawn, by omega, fun later hlater hbound => h.last later hlater ?_⟩
    rw [works_concat_work, List.length_append]
    omega
  · intro h
    have hlt := h.lt
    have hrecent := h.recent
    refine ⟨?_, h.drawn, ?_, ?_⟩
    · rw [works_concat_work, List.getElem?_append_left hlt]
      exact h.work
    · rw [works_concat_work, worksSinceClean_concat_work, List.length_append,
        List.length_singleton]
      omega
    · intro later hlater hbound
      rw [works_concat_work, List.length_append, List.length_singleton] at hbound
      by_cases hnew : later = (works messages).length
      · rwa [hnew]
      · exact h.last later hlater (by omega)

end LastUnder

/-! ## Registries -/

namespace Registry

/-- The registry holds what the messages say, and as many live jobs as there can be. -/
structure Holds (r : Registry) (step : UInt8) (messages : List WorkMessage) : Prop where
  slots : ∀ id job, r.get? id = some job ↔ ∃ number, LastUnder step messages id job number
  live : r.liveCount = min (worksSinceClean messages) (IdAllocator.period step)

theorem liveCount_install {id : UInt8} (h : id.toNat < jobIdSpace) (r : Registry) (job : Job) :
    (r.install id job).liveCount = r.liveCount + if (r.get? id).isSome then 0 else 1 := by
  have hslot : id.toNat < r.slots.toList.length := by simpa using h
  have hget : r.slots.toList[id.toNat] = r.get? id := by simp [get?, h]
  have hcount : (r.install id job).liveCount =
      (r.liveCount - if (r.get? id).isSome then 1 else 0) + 1 := by
    simp only [install, put, liveCount, dif_pos h, Vector.toList_set]
    rw [List.countP_set hslot, hget]
    simp
  rw [hcount]
  by_cases hlive : (r.get? id).isSome
  · have hpos : 0 < r.liveCount :=
      List.countP_pos_iff.2 ⟨r.get? id, hget ▸ List.getElem_mem hslot, hlive⟩
    rw [if_pos hlive, if_pos hlive]
    omega
  · rw [if_neg hlive, if_neg hlive]
    omega

theorem liveCount_empty : empty.liveCount = 0 := by
  simp [liveCount, empty]

namespace Holds

variable {r : Registry} {step : UInt8} {messages : List WorkMessage}

theorem nothing (step : UInt8) : empty.Holds step [] where
  slots id job := by
    rw [get?_empty]
    exact ⟨nofun, fun ⟨_, h⟩ => absurd h.lt (Nat.not_lt_zero _)⟩
  live := by rw [liveCount_empty, worksSinceClean, List.foldl_nil, Nat.zero_min]

theorem clean (step : UInt8) (messages : List WorkMessage) :
    empty.Holds step (messages ++ [.cleanJobs]) where
  slots id job := by
    rw [get?_empty]
    exact ⟨nofun, fun ⟨_, h⟩ => absurd h LastUnder.not_cleaned⟩
  live := by rw [liveCount_empty, worksSinceClean_concat_cleanJobs, Nat.zero_min]

/-- The next identifier is in use once a whole period of works has come since cleaning. -/
theorem isSome_next (h : r.Holds step messages) :
    (r.get? (IdAllocator.nth step ((works messages).length + 1))).isSome ↔
      IdAllocator.period step ≤ worksSinceClean messages := by
  have hsince := worksSinceClean_le messages
  have hpos := IdAllocator.period_pos step
  constructor
  · intro hsome
    obtain ⟨job, hjob⟩ := Option.isSome_iff_exists.1 hsome
    obtain ⟨number, hlast⟩ := (h.slots _ _).1 hjob
    have hlt := hlast.lt
    have hrecent := hlast.recent
    by_contra hfew
    exact IdAllocator.nth_ne_of_lt (by omega) (by omega) hlast.drawn.symm
  · intro hmany
    let number := (works messages).length - IdAllocator.period step
    have hlt : number < (works messages).length := by omega
    have hnumber : number + IdAllocator.period step = (works messages).length := by omega
    have hdrawn : IdAllocator.nth step (number + 1) =
        IdAllocator.nth step ((works messages).length + 1) := by
      rw [IdAllocator.nth_eq_nth_iff, ← hnumber, Nat.add_right_comm]
      simp [Nat.ModEq]
    refine Option.isSome_iff_exists.2 ⟨(works messages)[number], (h.slots _ _).2 ⟨number, ?_⟩⟩
    refine ⟨List.getElem?_eq_getElem hlt, hdrawn, by omega, fun later hlater hbound => ?_⟩
    rw [← hdrawn]
    exact IdAllocator.nth_ne_of_lt (by omega) (by omega)

/-- Once a work is installed under the next identifier, the registry holds what the messages with
that work say. -/
theorem work (h : r.Holds step messages) (job : Job) :
    (r.install (IdAllocator.nth step ((works messages).length + 1)) job).Holds step
      (messages ++ [.work job]) where
  slots id other := by
    rw [get?_install (IdAllocator.nth_lt ..)]
    by_cases hid : IdAllocator.nth step ((works messages).length + 1) = id
    · simp [LastUnder.concat_own hid, hid, eq_comm]
    · rw [if_neg (Ne.symm hid), h.slots]
      simp [LastUnder.concat_other hid]
  live := by
    have hnext := h.isSome_next
    have hlive := h.live
    rw [liveCount_install (IdAllocator.nth_lt ..), hlive, worksSinceClean_concat_work]
    split_ifs with hsome
    · have hmany := hnext.1 hsome
      omega
    · have hfew := mt hnext.2 hsome
      omega

end Holds

end Registry

end ChipChain
