import ChipChain.Port.Basic

/-!
# The stream through a port

Between the line and the caller bytes wait in three places: with the pump, in
the chunks, and with the owner. Taken together they are one queue. A reading of the
pump appends to it and a call takes from its front, however the bytes are cut and
however calls end. The main statement is `stream_kept`.
-/

namespace ChipChain.Port

variable {p q : Port} {m : Move} {outcomes : List Outcome} {capacity : Nat}
  {result : Except LinkError Bytes}

/-! ## One queue in three places -/

def Pump.held : Pump → Bytes
  | .holding chunk => chunk
  | _ => []

/-- What the pump has passed on and no call has handed out. -/
def forwarded (p : Port) : Bytes :=
  p.pending ++ p.chunks.flatten

/-- What the pump has read and no call has handed out. -/
def queued (p : Port) : Bytes :=
  p.forwarded ++ p.pump.held

/-- The bytes that the pump reads in a move. -/
def intake (p : Port) : Move → Bytes
  | .read count => p.arrived.take count
  | _ => []

def Move.arrival : Move → Bytes
  | .arrive data => data
  | _ => []

/-- The bytes that the pump reads in a run, one reading after the other. -/
def stream (p : Port) : List Move → Bytes
  | [] => []
  | m :: rest =>
      match p.move m with
      | none => []
      | some (_, q) => p.intake m ++ q.stream rest

def Outcome.bytes : Outcome → Bytes
  | .received (.ok bytes) => bytes
  | _ => []

/-- The bytes that calls have handed out. -/
def returned (outcomes : List Outcome) : Bytes :=
  outcomes.flatMap Outcome.bytes

theorem returned_append (first second : List Outcome) :
    returned (first ++ second) = returned first ++ returned second :=
  List.flatMap_append

theorem returned_of_silent (h : ∀ result, .received result ∉ outcomes) :
    returned outcomes = [] := by
  refine List.flatMap_eq_nil_iff.2 fun outcome hmem => ?_
  cases outcome with
  | received result => exact absurd hmem (h result)
  | answered request answer => rfl

theorem queued_of_stopped (h : p.pump = .stopped) : p.queued = p.forwarded := by
  simp [queued, h, Pump.held]

/-! ## Moves that end no call -/

def Move.endsCall : Move → Bool
  | .finish | .expire | .cancel => true
  | _ => false

def Move.discards : Move → Bool
  | .startDiscarding | .discard | .endDiscarding => true
  | _ => false

/-- What a move does to the queue and to the owner's call if it neither ends the call nor throws
bytes away. -/
structure Onward (p : Port) (m : Move) (outcomes : List Outcome) (q : Port) : Prop where
  silent : ∀ result, .received result ∉ outcomes
  queue : q.queued = p.queued ++ p.intake m
  /-- The port's own input loses what the pump reads, and gets nothing but what arrives. -/
  input : (p.intake m ++ q.arrived).Sublist (p.arrived ++ m.arrival)
  /-- Nothing that has been passed on is taken back. -/
  passed : ∃ more, q.forwarded = p.forwarded ++ more
  /-- A pump that has stopped reads nothing more. -/
  stopped : p.pump = .stopped → q.pump = .stopped ∧ p.intake m = []
  call : q.hold = p.hold ∨ p.hold = .free ∧ ∃ capacity, q.hold = .receiving capacity

theorem onward_of_same (hhold : q.hold = p.hold) (hpump : q.pump = p.pump)
    (hpassed : q.forwarded = p.forwarded) (hinput : q.arrived.Sublist (p.arrived ++ m.arrival))
    (hsilent : ∀ result, .received result ∉ outcomes) (hintake : p.intake m = []) :
    Onward p m outcomes q where
  silent := hsilent
  queue := by rw [queued, queued, hpump, hpassed, hintake, List.append_nil]
  input := by rwa [hintake, List.nil_append]
  passed := ⟨[], by rw [hpassed, List.append_nil]⟩
  stopped := fun h => ⟨hpump.trans h, hintake⟩
  call := .inl hhold

theorem onward_apply (request : Request) (requests : List Request) (answer : Except LinkError Unit)
    (refusal : Option String) :
    Onward p (.serve refusal) [.answered request answer] ({ p with requests }.apply request) := by
  cases request with
  | clearInput => exact onward_of_same rfl rfl rfl (List.nil_sublist _) (by simp) rfl
  | _ => exact onward_of_same rfl rfl rfl (List.sublist_append_left _ _) (by simp) rfl

theorem onward_read (hpump : p.pump = .listening) (count : Nat) :
    Onward p (.read count) []
      { p with pump := .holding (p.arrived.take count), arrived := p.arrived.drop count } where
  silent := by simp
  queue := by simp [queued, forwarded, hpump, Pump.held, intake]
  input := by simp [intake, Move.arrival]
  passed := ⟨[], (List.append_nil _).symm⟩
  stopped := by simp [hpump]
  call := .inl rfl

theorem onward_forward {chunk : Bytes} (hpump : p.pump = .holding chunk) :
    Onward p .forward [] { p with pump := .listening, chunks := p.chunks ++ [chunk] } where
  silent := by simp
  queue := by simp [queued, forwarded, hpump, Pump.held, intake]
  input := List.sublist_append_left _ _
  passed := ⟨chunk, by simp [forwarded]⟩
  stopped := by simp [hpump]
  call := .inl rfl

theorem onward_stop (hpump : p.pump = .listening) :
    Onward p .stop (p.requests.map (.answered · (.error .disconnected)))
      { p with pump := .stopped, requests := [] } where
  silent := by simp
  queue := by simp [queued, forwarded, hpump, Pump.held, intake]
  input := List.sublist_append_left _ _
  passed := ⟨[], (List.append_nil _).symm⟩
  stopped := fun _ => ⟨rfl, rfl⟩
  call := .inl rfl

theorem onward_startReceiving (hfree : p.hold = .free) (capacity : Nat) :
    Onward p (.startReceiving capacity) [] { p with hold := .receiving capacity } where
  silent := by simp
  queue := (List.append_nil _).symm
  input := List.sublist_append_left _ _
  passed := ⟨[], (List.append_nil _).symm⟩
  stopped := fun hstop => ⟨hstop, rfl⟩
  call := .inr ⟨hfree, capacity, rfl⟩

theorem onward_of_move (h : p.move m = some (outcomes, q)) (hm : m.endsCall = false)
    (hkept : m.discards = false) : Onward p m outcomes q := by
  cases m with
  | finish | expire | cancel => cases hm
  | startDiscarding | discard | endDiscarding => cases hkept
  | arrive data =>
      simp only [move, Option.ite_none_left_eq_some] at h
      obtain ⟨-, h⟩ := h
      cases h
      exact onward_of_same rfl rfl rfl (List.Sublist.refl _) (by simp) rfl
  | hangUp =>
      cases h
      exact onward_of_same rfl rfl rfl (List.sublist_append_left _ _) (by simp) rfl
  | read count =>
      simp only [move, Option.ite_none_right_eq_some] at h
      obtain ⟨⟨hpump, -⟩, h⟩ := h
      cases h
      exact onward_read hpump count
  | forward =>
      simp only [move] at h
      split at h
      next chunk hpump =>
        obtain ⟨-, h⟩ := Option.ite_none_right_eq_some.1 h
        cases h
        exact onward_forward hpump
      next => cases h
  | serve refusal =>
      simp only [move] at h
      split at h
      next request requests hpump hreq =>
        split at h
        · cases h
          exact onward_apply request requests _ _
        · cases h
          exact onward_of_same rfl rfl rfl (List.sublist_append_left _ _) (by simp) rfl
      next => cases h
  | stop =>
      simp only [move, Option.ite_none_right_eq_some] at h
      obtain ⟨hpump, h⟩ := h
      cases h
      exact onward_stop hpump
  | submit request =>
      simp only [move] at h
      split at h
      · cases h
        exact onward_of_same rfl rfl rfl (List.sublist_append_left _ _) (by simp) rfl
      · obtain ⟨-, h⟩ := Option.ite_none_right_eq_some.1 h
        cases h
        exact onward_of_same rfl rfl rfl (List.sublist_append_left _ _) (by simp) rfl
  | startReceiving capacity =>
      simp only [move, Option.ite_none_right_eq_some] at h
      obtain ⟨hfree, h⟩ := h
      cases h
      exact onward_startReceiving hfree capacity
  | take =>
      simp only [move] at h
      split at h
      next capacity chunk chunks hhold hchunks =>
        obtain ⟨-, h⟩ := Option.ite_none_right_eq_some.1 h
        cases h
        refine onward_of_same rfl rfl ?_ (List.sublist_append_left _ _) (by simp) rfl
        simp [forwarded, hchunks]
      next => cases h

theorem discards_eq_false (h : p.move m = some (outcomes, q)) (hp : p.hold ≠ .discarding)
    (hkept : m ≠ .startDiscarding) : m.discards = false := by
  cases m with
  | startDiscarding => exact absurd rfl hkept
  | discard =>
      simp only [move] at h
      split at h
      next hhold _ => exact absurd hhold hp
      next => cases h
  | endDiscarding =>
      simp only [move, hp, false_and, if_false] at h
      cases h
  | _ => rfl

/-! ## Moves that end a call -/

theorem queued_handOut (p : Port) (capacity : Nat) :
    returned (p.handOut capacity).1 ++ (p.handOut capacity).2.queued = p.queued := by
  simp [handOut, returned, Outcome.bytes, queued, forwarded, ← List.append_assoc]

/-- How a call can end, and when. -/
inductive Ending (p : Port) : Move → List Outcome → Port → Prop
  /-- Enough bytes have been taken. -/
  | full (capacity : Nat) (hhold : p.hold = .receiving capacity)
      (h : capacity ≤ p.pending.length) :
      Ending p .finish (p.handOut capacity).1 (p.handOut capacity).2
  /-- The pump has stopped, and the last of its bytes have been taken. -/
  | last (capacity : Nat) (hhold : p.hold = .receiving capacity)
      (h : p.pending.length < capacity) (hpump : p.pump = .stopped) (hchunks : p.chunks = [])
      (hpending : p.pending ≠ []) :
      Ending p .finish (p.handOut capacity).1 (p.handOut capacity).2
  | drained (capacity : Nat) (hhold : p.hold = .receiving capacity) (h : 0 < capacity)
      (hpump : p.pump = .stopped) (hchunks : p.chunks = []) (hpending : p.pending = []) :
      Ending p .finish [.received (.error .disconnected)] { p with hold := .free }
  /-- Time is up, and nothing is there to be taken. -/
  | late (capacity : Nat) (hhold : p.hold = .receiving capacity)
      (h : p.pending.length < capacity) (hchunks : p.chunks = []) (hpump : p.pump ≠ .stopped) :
      Ending p .expire (p.handOut capacity).1 (p.handOut capacity).2
  | cancelled (capacity : Nat) (hhold : p.hold = .receiving capacity) :
      Ending p .cancel [] { p with hold := .free }

theorem ending_of_move (h : p.move m = some (outcomes, q)) (hm : m.endsCall) :
    Ending p m outcomes q := by
  cases m with
  | finish =>
      simp only [move] at h
      split at h
      next capacity hhold =>
        split at h
        next henough =>
          cases h
          exact .full capacity hhold henough
        next hshort =>
        split at h
        next hstop =>
          split at h
          next hnone =>
            cases h
            have hpos : 0 < capacity := by
              rw [hnone, List.length_nil] at hshort
              omega
            exact .drained capacity hhold hpos hstop.1 hstop.2 hnone
          next hsome =>
            cases h
            exact .last capacity hhold (by omega) hstop.1 hstop.2 hsome
        next => cases h
      next => cases h
  | expire =>
      simp only [move] at h
      split at h
      next capacity hhold =>
        split at h
        next hlate =>
          cases h
          exact .late capacity hhold hlate.1 hlate.2.1 hlate.2.2
        next => cases h
      next => cases h
  | cancel =>
      simp only [move] at h
      split at h
      next capacity hhold =>
        cases h
        exact .cancelled capacity hhold
      next => cases h
  | _ => cases hm

/-! ## Nothing is lost -/

theorem queued_of_move (h : p.move m = some (outcomes, q)) (hp : p.hold ≠ .discarding)
    (hkept : m ≠ .startDiscarding) :
    returned outcomes ++ q.queued = p.queued ++ p.intake m ∧ q.hold ≠ .discarding := by
  cases hm : m.endsCall with
  | false =>
      have hon := onward_of_move h hm (discards_eq_false h hp hkept)
      refine ⟨by rw [returned_of_silent hon.silent, hon.queue, List.nil_append], ?_⟩
      rcases hon.call with hsame | ⟨-, capacity, hcall⟩
      · rw [hsame]
        exact hp
      · rw [hcall]
        exact nofun
  | true =>
      have hnone : p.intake m = [] := by cases m <;> first | rfl | cases hm
      rw [hnone, List.append_nil]
      cases ending_of_move h hm with
      | full | last | late => exact ⟨queued_handOut p _, nofun⟩
      | drained | cancelled => exact ⟨rfl, nofun⟩

theorem run_cons_eq_some {rest : List Move} {r : Port}
    (h : p.run (m :: rest) = some (outcomes, r)) :
    ∃ first q more, p.move m = some (first, q) ∧ q.run rest = some (more, r) ∧
      outcomes = first ++ more := by
  cases hm : p.move m with
  | none =>
      rw [run, hm] at h
      cases h
  | some step =>
      obtain ⟨first, q⟩ := step
      cases hr : q.run rest with
      | none =>
          rw [run, hm] at h
          dsimp only [bind, Option.bind] at h
          rw [hr] at h
          cases h
      | some last =>
          obtain ⟨more, r'⟩ := last
          rw [run, hm] at h
          dsimp only [bind, Option.bind] at h
          rw [hr] at h
          cases h
          exact ⟨first, q, more, rfl, hr, rfl⟩

theorem queued_of_run {moves : List Move} (h : p.run moves = some (outcomes, q))
    (hp : p.hold ≠ .discarding) (hkept : .startDiscarding ∉ moves) :
    returned outcomes ++ q.queued = p.queued ++ p.stream moves ∧ q.hold ≠ .discarding := by
  induction moves generalizing p outcomes with
  | nil =>
      cases h
      exact ⟨by simp [stream, returned], hp⟩
  | cons m rest ih =>
      obtain ⟨first, r, more, hm, hr, rfl⟩ := run_cons_eq_some h
      rw [List.mem_cons, not_or] at hkept
      obtain ⟨hfirst, hold⟩ := queued_of_move hm hp (Ne.symm hkept.1)
      obtain ⟨hmore, hend⟩ := ih hr hold hkept.2
      refine ⟨?_, hend⟩
      rw [returned_append, List.append_assoc, hmore, ← List.append_assoc, hfirst, stream, hm,
        List.append_assoc]

/-! ## What a call gets -/

/-- The result of a call for so many bytes whose time cannot run out any more: all that it asked
for, or the end of what a stopped pump has read. -/
def answer (p : Port) (capacity : Nat) : Except LinkError Bytes :=
  if p.queued = [] ∧ 0 < capacity then .error .disconnected else .ok (p.queued.take capacity)

/-- A call is under way, and its result is settled. -/
structure Settled (p : Port) (capacity : Nat) (result : Except LinkError Bytes) : Prop where
  hold : p.hold = .receiving capacity
  due : capacity ≤ p.forwarded.length ∨ p.pump = .stopped
  answer_eq : p.answer capacity = result

theorem Settled.move (hs : p.Settled capacity result) (hm : m.endsCall = false)
    (h : p.move m = some (outcomes, q)) : q.Settled capacity result := by
  have hp : p.hold ≠ .discarding := by
    rw [hs.hold]
    exact nofun
  have hkept : m ≠ .startDiscarding := by
    rintro rfl
    simp [Port.move, hs.hold] at h
  have hon := onward_of_move h hm (discards_eq_false h hp hkept)
  have hhold : q.hold = .receiving capacity := by
    rcases hon.call with hsame | ⟨hfree, -⟩
    · exact hsame.trans hs.hold
    · rw [hs.hold] at hfree
      cases hfree
  obtain ⟨more, hmore⟩ := hon.passed
  refine ⟨hhold, ?_, ?_⟩
  · rcases hs.due with henough | hstop
    · left
      rw [hmore, List.length_append]
      omega
    · exact .inr (hon.stopped hstop).1
  · rw [← hs.answer_eq, answer, answer, hon.queue]
    rcases hs.due with henough | hstop
    · have hlen : capacity ≤ p.queued.length := by
        rw [queued, List.length_append]
        omega
      have hnone : ∀ bytes : Bytes, ¬ (p.queued ++ bytes = [] ∧ 0 < capacity) := by
        rintro bytes ⟨hnil, hpos⟩
        rw [(List.append_eq_nil_iff.1 hnil).1, List.length_nil] at hlen
        omega
      have hnow := hnone []
      rw [List.append_nil] at hnow
      rw [if_neg (hnone _), if_neg hnow, List.take_append_of_le_length hlen]
    · rw [(hon.stopped hstop).2, List.append_nil]

/-- A settled call ends with its result, whichever way it ends. -/
theorem Settled.ends (hs : p.Settled capacity result) (hm : m = .finish ∨ m = .expire)
    (h : p.move m = some (outcomes, q)) : outcomes = [.received result] := by
  have hends : m.endsCall := by rcases hm with rfl | rfl <;> rfl
  have hsame : ∀ other, p.hold = .receiving other → other = capacity := by
    intro other hother
    rw [hs.hold] at hother
    cases hother
    rfl
  rw [← hs.answer_eq, answer]
  cases ending_of_move h hends with
  | full other hother henough =>
      obtain rfl := hsame other hother
      have hsome : ¬ (p.queued = [] ∧ 0 < other) := by
        rintro ⟨hnil, hpos⟩
        have hpending : p.pending = [] := by
          simp only [queued, forwarded, List.append_eq_nil_iff] at hnil
          exact hnil.1.1
        rw [hpending, List.length_nil] at henough
        omega
      rw [if_neg hsome, handOut]
      simp only [queued, forwarded, List.append_assoc, List.take_append_of_le_length henough]
  | last other hother hshort hpump hchunks hpending =>
      obtain rfl := hsame other hother
      have hqueued : p.queued = p.pending := by
        simp [queued_of_stopped hpump, forwarded, hchunks]
      rw [hqueued, if_neg fun hnone => hpending hnone.1, handOut]
  | drained other hother hpos hpump hchunks hpending =>
      obtain rfl := hsame other hother
      have hqueued : p.queued = [] := by
        simp [queued_of_stopped hpump, forwarded, hchunks, hpending]
      rw [if_pos ⟨hqueued, hpos⟩]
  | late other hother hshort hchunks hpump =>
      obtain rfl := hsame other hother
      -- Time cannot run out: all that was asked for is there to be taken.
      have henough := hs.due.resolve_right hpump
      simp only [forwarded, hchunks, List.flatten_nil, List.append_nil] at henough
      omega
  | cancelled => rcases hm with h | h <;> cases h

/-- A settled call can end: the owner takes what it needs, and is done. -/
theorem Settled.completes (hs : p.Settled capacity result) :
    ∃ count q, p.run (List.replicate count .take ++ [.finish]) =
      some ([.received result], q) := by
  generalize hchunks : p.chunks = chunks
  induction chunks generalizing p with
  | nil =>
      have hfinish : ∃ outcomes q, p.move .finish = some (outcomes, q) := by
        simp only [Port.move, hs.hold]
        by_cases henough : capacity ≤ p.pending.length
        · rw [if_pos henough]
          exact ⟨_, _, rfl⟩
        · have hstop : p.pump = .stopped := by
            refine hs.due.resolve_left fun hforwarded => henough ?_
            simpa [forwarded, hchunks] using hforwarded
          rw [if_neg henough, if_pos ⟨hstop, hchunks⟩]
          split <;> exact ⟨_, _, rfl⟩
      obtain ⟨outcomes, q, hq⟩ := hfinish
      obtain rfl := hs.ends (.inl rfl) hq
      exact ⟨0, q, by simp [run, hq]⟩
  | cons chunk rest ih =>
      by_cases henough : capacity ≤ p.pending.length
      · have hq : p.move .finish = some (p.handOut capacity) := by
          simp only [Port.move, hs.hold, if_pos henough]
        have hresult := hs.ends (.inl rfl) hq
        refine ⟨0, (p.handOut capacity).2, ?_⟩
        rw [List.replicate_zero, List.nil_append, Port.run, hq]
        simpa [Port.run, handOut] using hresult
      · have htake : p.move .take =
            some ([], { p with pending := p.pending ++ chunk, chunks := rest }) := by
          simp only [Port.move, hs.hold, hchunks, if_pos (Nat.lt_of_not_le henough)]
        obtain ⟨count, q, hrest⟩ := ih (hs.move rfl htake) rfl
        refine ⟨count + 1, q, ?_⟩
        rw [List.replicate_succ, List.cons_append, run, htake]
        simp [hrest]

theorem Settled.run {moves : List Move} (hs : p.Settled capacity result)
    (hm : ∀ m ∈ moves, m.endsCall = false) (h : p.run moves = some (outcomes, q)) :
    q.Settled capacity result := by
  induction moves generalizing p outcomes with
  | nil =>
      cases h
      exact hs
  | cons m rest ih =>
      obtain ⟨first, r, more, hfirst, hrest, -⟩ := run_cons_eq_some h
      exact ih (hs.move (hm m List.mem_cons_self) hfirst)
        (fun later hlater => hm later (List.mem_cons_of_mem m hlater)) hrest

/-- A call for so many bytes, begun now, gets this result: unless it is cancelled it can end in no
other way, and it can always end. -/
def Gets (p : Port) (capacity : Nat) (result : Except LinkError Bytes) : Prop :=
  ∀ during outcomes q, p.run (.startReceiving capacity :: during) = some (outcomes, q) →
    (∀ m ∈ during, m.endsCall = false) →
      (∀ m more r, m = .finish ∨ m = .expire → q.move m = some (more, r) →
        more = [.received result]) ∧
      ∃ count r, q.run (List.replicate count .take ++ [.finish]) = some ([.received result], r)

theorem gets_of_due {p : Port} (capacity : Nat)
    (hdue : capacity ≤ p.forwarded.length ∨ p.pump = .stopped) :
    p.Gets capacity (p.answer capacity) := by
  intro during outcomes q hrun hduring
  obtain ⟨first, start, more, hstart, hrest, -⟩ := run_cons_eq_some hrun
  have hsettled : start.Settled capacity (p.answer capacity) := by
    simp only [move] at hstart
    split at hstart
    · cases hstart
      exact ⟨rfl, hdue, rfl⟩
    · cases hstart
  have hend := hsettled.run hduring hrest
  exact ⟨fun m _ _ hm hmove => hend.ends hm hmove, hend.completes⟩

/-! ## The stream as a whole -/

/-- What is promised of a port that has read a stream and whose calls have returned some of it. -/
structure Kept (p : Port) (stream returned : Bytes) : Prop where
  whole : returned ++ p.queued = stream
  /-- Where enough bytes have been passed on, a call gets the next bytes of the stream, as many as
  it asked for. -/
  prompt : ∀ capacity ≤ p.forwarded.length,
    ((stream.drop returned.length).take capacity).length = capacity ∧
      p.Gets capacity (.ok ((stream.drop returned.length).take capacity))
  /-- Once the pump has stopped, calls get what is left of the stream, and then learn of it. -/
  drained : p.pump = .stopped → ∀ capacity, 0 < capacity →
    p.Gets capacity
      (if returned = stream then .error .disconnected
        else .ok ((stream.drop returned.length).take capacity))
  /-- Nobody learns that the port is gone before the whole stream has been returned. -/
  lost : ∀ m outcomes q e, p.move m = some (outcomes, q) → .received (.error e) ∈ outcomes →
    e = .disconnected ∧ p.pump = .stopped ∧ returned = stream

theorem kept_of_whole {stream returned : Bytes} (hp : p.hold ≠ .discarding)
    (hwhole : returned ++ p.queued = stream) : p.Kept stream returned := by
  have hdrop : stream.drop returned.length = p.queued := by
    rw [← hwhole, List.drop_left]
  have hnone : p.queued = [] ↔ returned = stream := by
    rw [← hwhole]
    simp
  refine ⟨hwhole, ?_, ?_, ?_⟩
  · intro capacity henough
    have hlen : capacity ≤ p.queued.length := by
      rw [queued, List.length_append]
      omega
    have hgets := gets_of_due capacity (.inl henough)
    rw [answer, if_neg (by rintro ⟨hnil, hpos⟩; rw [hnil, List.length_nil] at hlen; omega)] at hgets
    rw [hdrop]
    exact ⟨by rw [List.length_take]; omega, hgets⟩
  · intro hstop capacity hpos
    have hgets := gets_of_due capacity (.inr hstop)
    rw [hdrop]
    simp only [answer, hpos, and_true, hnone] at hgets
    exact hgets
  · intro m outcomes q e hmove herror
    cases hm : m.endsCall with
    | false =>
        have hkept : m ≠ .startDiscarding := by
          rintro rfl
          have hsilent : outcomes = [] := by
            simp only [move] at hmove
            split at hmove <;> cases hmove
            rfl
          rw [hsilent] at herror
          cases herror
        exact absurd herror ((onward_of_move hmove hm (discards_eq_false hmove hp hkept)).silent _)
    | true =>
        cases ending_of_move hmove hm with
        | drained capacity hhold hpos hpump hchunks hpending =>
            have hnil : p.queued = [] := by
              simp [queued_of_stopped hpump, forwarded, hchunks, hpending]
            simp only [List.mem_singleton, Outcome.received.injEq, Except.error.injEq] at herror
            exact ⟨herror, hpump, hnone.1 hnil⟩
        | full | last | late => simp [handOut] at herror
        | cancelled => cases herror

/-- A new port, whatever arrives, however it is read and passed on, and however calls are made, run
out of time or are cancelled: as long as the owner throws nothing away, what calls have returned is
the beginning of the stream that the pump has read, and the rest is there for later calls. -/
theorem stream_kept (moves : List Move) (outcomes : List Outcome) (p : Port)
    (hrun : run {} moves = some (outcomes, p)) (hkept : .startDiscarding ∉ moves) :
    p.Kept (stream {} moves) (returned outcomes) := by
  obtain ⟨hwhole, hhold⟩ := queued_of_run hrun nofun hkept
  exact kept_of_whole hhold hwhole

/-- One call is cancelled after it has taken a chunk, the next runs out of time in the middle of a
frame, and then the line goes dead. -/
def interrupted : List Move :=
  [.arrive [1, 2, 3], .arrive [4, 5], .read 2, .forward, .startReceiving 4, .take, .cancel,
    .startReceiving 4, .expire, .hangUp, .read 3, .forward, .stop, .startReceiving 2, .take, .finish]

theorem stream_kept_after_hangUp :
    ∃ p, run {} interrupted =
        some ([.received (.ok [1, 2]), .received (.ok [3, 4])], p) ∧
      .startDiscarding ∉ interrupted ∧ p.Kept [1, 2, 3, 4, 5] [1, 2, 3, 4] :=
  ⟨_, rfl, by decide, stream_kept interrupted _ _ rfl (by decide)⟩

end ChipChain.Port
