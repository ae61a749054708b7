import ChipChain.Proofs.Port.Clearing

/-!
# Chunks that nobody takes

One pump serves both directions. With a chunk in hand it answers no request, and it
keeps the chunk in hand while there is no room among the chunks. So requests are served
as long as the pump is at most sixty-four chunks ahead of the owner; one more, and no
request is served until the owner takes a chunk. The main statement is
`served_unless_jammed`.
-/

namespace ChipChain.Port

variable {p q : Port} {m : Move} {moves : List Move} {outcomes : List Outcome}

/-! ## How far the pump is ahead -/

def Move.reads : Move → Bool
  | .read _ => true
  | _ => false

def Move.takes : Move → Bool
  | .take | .discard => true
  | _ => false

def Move.shifts : Move → Bool
  | .read _ | .forward | .stop | .take | .discard => true
  | _ => false

def Pump.inHand : Pump → Nat
  | .holding _ => 1
  | _ => 0

/-- How many chunks the pump has read and the owner has not taken. -/
def ahead (p : Port) : Nat :=
  p.chunks.length + p.pump.inHand

theorem same_of_move (h : p.move m = some (outcomes, q)) (hm : m.shifts = false) :
    q.pump = p.pump ∧ q.chunks = p.chunks := by
  cases m with
  | read | forward | stop | take | discard => cases hm
  | serve refusal =>
      simp only [move] at h
      split at h
      next request requests _ _ =>
        cases refusal with
        | none =>
            cases request <;> cases h <;> exact ⟨rfl, rfl⟩
        | some => cases h; exact ⟨rfl, rfl⟩
      next => cases h
  | _ =>
      simp only [move, handOut] at h
      repeat' split at h
      all_goals cases h
      all_goals exact ⟨rfl, rfl⟩

/-- A reading puts the pump one chunk ahead, and a chunk that the owner takes puts it one back;
there are never more chunks than there is room for. -/
theorem ahead_of_move (h : p.move m = some (outcomes, q)) :
    q.ahead + (if m.takes then 1 else 0) = p.ahead + (if m.reads then 1 else 0) ∧
      (p.chunks.length ≤ chunkLimit → q.chunks.length ≤ chunkLimit) := by
  cases hm : m.shifts with
  | false =>
      obtain ⟨hpump, hchunks⟩ := same_of_move h hm
      have hnone : m.takes = false ∧ m.reads = false := by
        cases m <;> first | exact ⟨rfl, rfl⟩ | cases hm
      rw [ahead, ahead, hpump, hchunks, hnone.1, hnone.2]
      exact ⟨rfl, id⟩
  | true =>
      cases m with
      | read count =>
          simp only [move, Option.ite_none_right_eq_some] at h
          obtain ⟨⟨hpump, -⟩, h⟩ := h
          cases h
          exact ⟨by simp [ahead, hpump, Pump.inHand, Move.takes, Move.reads], id⟩
      | forward =>
          simp only [move] at h
          split at h
          next chunk hpump =>
            obtain ⟨hroom, h⟩ := Option.ite_none_right_eq_some.1 h
            cases h
            refine ⟨by simp [ahead, hpump, Pump.inHand, Move.takes, Move.reads], fun _ => ?_⟩
            rw [List.length_append]
            exact hroom
          next => cases h
      | stop =>
          simp only [move, Option.ite_none_right_eq_some] at h
          obtain ⟨hpump, h⟩ := h
          cases h
          exact ⟨by simp [ahead, hpump, Pump.inHand, Move.takes, Move.reads], id⟩
      | take =>
          simp only [move] at h
          split at h
          next capacity chunk chunks hhold hchunks =>
            obtain ⟨-, h⟩ := Option.ite_none_right_eq_some.1 h
            cases h
            simp only [ahead, hchunks, Move.takes, Move.reads, List.length_cons, if_true,
              Bool.false_eq_true, if_false]
            omega
          next => cases h
      | discard =>
          simp only [move] at h
          split at h
          next chunk chunks hhold hchunks =>
            cases h
            simp only [ahead, hchunks, Move.takes, Move.reads, List.length_cons, if_true,
              Bool.false_eq_true, if_false]
            omega
          next => cases h
      | _ => cases hm

theorem ahead_of_run (h : p.run moves = some (outcomes, q)) :
    q.ahead + moves.countP Move.takes = p.ahead + moves.countP Move.reads ∧
      (p.chunks.length ≤ chunkLimit → q.chunks.length ≤ chunkLimit) := by
  induction moves generalizing p outcomes with
  | nil =>
      cases h
      exact ⟨rfl, id⟩
  | cons m rest ih =>
      obtain ⟨first, r, more, hm, hr, rfl⟩ := run_cons_eq_some h
      obtain ⟨hcount, hroom⟩ := ahead_of_move hm
      obtain ⟨hcounts, hrooms⟩ := ih hr
      refine ⟨?_, fun hp => hrooms (hroom hp)⟩
      rw [List.countP_cons, List.countP_cons]
      omega

/-! ## A pump with a chunk in hand -/

/-- The pump has a chunk in hand that there is no room for. -/
structure Jammed (p : Port) : Prop where
  holding : ∃ chunk, p.pump = .holding chunk
  full : chunkLimit ≤ p.chunks.length

/-- A pump with a chunk in hand answers nothing; requests queue up behind it. -/
theorem unanswered_of_move {chunk : Bytes} (h : p.move m = some (outcomes, q))
    (hpump : p.pump = .holding chunk) :
    (∀ request result, .answered request result ∉ outcomes) ∧ p.requests <+: q.requests := by
  cases m with
  | serve refusal | read count | stop => simp [move, hpump] at h
  | submit request =>
      simp only [move, hpump, reduceCtorEq, if_false, Option.ite_none_right_eq_some] at h
      obtain ⟨-, h⟩ := h
      cases h
      exact ⟨by simp, List.prefix_append _ _⟩
  | _ =>
      simp only [move, handOut] at h
      repeat' split at h
      all_goals cases h
      all_goals exact ⟨by simp, List.prefix_rfl⟩

theorem Jammed.move (hp : p.Jammed) (h : p.move m = some (outcomes, q)) (hm : m.takes = false) :
    q.Jammed := by
  obtain ⟨chunk, hpump⟩ := hp.holding
  cases hshifts : m.shifts with
  | false =>
      obtain ⟨hsame, hchunks⟩ := same_of_move h hshifts
      exact ⟨⟨chunk, hsame.trans hpump⟩, hchunks ▸ hp.full⟩
  | true =>
      have hfull : ¬ p.chunks.length < chunkLimit := Nat.not_lt.2 hp.full
      cases m with
      | take | discard => cases hm
      | read | stop | forward => simp [Port.move, hpump, hfull] at h
      | _ => cases hshifts

/-- A jammed pump stays jammed, and answers no request, until the owner takes a chunk. -/
theorem Jammed.run (hp : p.Jammed) (h : p.run moves = some (outcomes, q))
    (hmoves : ∀ m ∈ moves, m.takes = false) :
    q.Jammed ∧ (∀ request result, .answered request result ∉ outcomes) ∧
      p.requests <+: q.requests := by
  induction moves generalizing p outcomes with
  | nil =>
      cases h
      exact ⟨hp, nofun, List.prefix_rfl⟩
  | cons m rest ih =>
      obtain ⟨first, r, more, hm, hr, rfl⟩ := run_cons_eq_some h
      obtain ⟨chunk, hpump⟩ := hp.holding
      obtain ⟨hfirst, hqueue⟩ := unanswered_of_move hm hpump
      have hr' := hp.move hm (hmoves m List.mem_cons_self)
      obtain ⟨hq, hmore, hqueues⟩ := ih hr' hr fun m hmem => hmoves m (List.mem_cons_of_mem _ hmem)
      refine ⟨hq, fun request result hmem => ?_, hqueue.trans hqueues⟩
      exact (List.mem_append.1 hmem).elim (hfirst request result) (hmore request result)

/-! ## When a request is served -/

/-- The pump serves the oldest request once it has passed on what it has in hand. -/
def Served (p : Port) (request : Request) : Prop :=
  ∃ ready, (ready = p ∨ p.move .forward = some ([], ready)) ∧
    ∀ refusal, ∃ result served,
      ready.move (.serve refusal) = some ([.answered request result], served)

theorem served_of_listening {request : Request} {waiting : List Request}
    (hpump : p.pump = .listening) (hqueued : p.requests = request :: waiting)
    (refusal : Option String) :
    ∃ result served, p.move (.serve refusal) = some ([.answered request result], served) := by
  rw [move, hpump, hqueued]
  cases refusal with
  | none => exact ⟨_, _, rfl⟩
  | some reason => exact ⟨_, _, rfl⟩

theorem served_of_room {request : Request} {waiting : List Request} (hopen : p.pump ≠ .stopped)
    (hqueued : p.requests = request :: waiting) (hroom : p.ahead ≤ chunkLimit) :
    p.Served request := by
  cases hpump : p.pump with
  | stopped => exact absurd hpump hopen
  | listening => exact ⟨p, .inl rfl, served_of_listening hpump hqueued⟩
  | holding chunk =>
      have hfree : p.chunks.length < chunkLimit := by
        rw [ahead, hpump, Pump.inHand] at hroom
        omega
      refine ⟨{ p with pump := .listening, chunks := p.chunks ++ [chunk] }, .inr ?_,
        served_of_listening rfl hqueued⟩
      simp only [move, hpump, if_pos hfree]

theorem jammed_of_ahead (hchunks : p.chunks.length ≤ chunkLimit) (h : chunkLimit < p.ahead) :
    p.Jammed := by
  cases hpump : p.pump with
  | stopped | listening =>
      have hnone : p.pump.inHand = 0 := by rw [hpump]; rfl
      rw [ahead, hnone] at h
      omega
  | holding chunk =>
      rw [ahead, hpump, Pump.inHand] at h
      exact ⟨⟨chunk, hpump⟩, by omega⟩

/-- An open port serves the oldest request, whatever the owner does with received bytes, as long as
the pump has read at most sixty-four chunks that the owner has not taken. Otherwise it serves none
until the owner takes a chunk. -/
theorem served_unless_jammed {baud : Nat} {request : Request} {waiting : List Request}
    (h : run { baud } moves = some (outcomes, p)) (hopen : p.pump ≠ .stopped)
    (hqueued : p.requests = request :: waiting) :
    (moves.countP Move.reads ≤ moves.countP Move.takes + chunkLimit → p.Served request) ∧
      (moves.countP Move.takes + chunkLimit < moves.countP Move.reads →
        ∀ later more q, (∀ m ∈ later, m.takes = false) → p.run later = some (more, q) →
          (∀ request result, .answered request result ∉ more) ∧ p.requests <+: q.requests) := by
  obtain ⟨hcount, hchunks⟩ := ahead_of_run h
  have hnone : ({ baud } : Port).ahead = 0 := rfl
  rw [hnone, Nat.zero_add] at hcount
  constructor
  · intro hroom
    exact served_of_room hopen hqueued (by omega)
  · intro hahead later more q hlater hrun
    have hjammed : p.Jammed := jammed_of_ahead (hchunks (Nat.zero_le _)) (by omega)
    exact (hjammed.run hrun hlater).2

/-- A chunk in hand that there is room for keeps no request waiting. -/
theorem served_while_holding :
    ∃ p, run {} [.arrive [7], .read 1, .submit (.setBaud 1000000)] = some ([], p) ∧
      p.pump = .holding [7] ∧ p.Served (.setBaud 1000000) := by
  let p : Port := { pump := .holding [7], requests := [.setBaud 1000000] }
  have hrun : run {} [.arrive [7], .read 1, .submit (.setBaud 1000000)] = some ([], p) := rfl
  have hopen : p.pump ≠ .stopped := by decide
  exact ⟨p, hrun, rfl, (served_unless_jammed hrun hopen rfl).1 (by decide)⟩

set_option maxRecDepth 4000 in
/-- After sixty-five bytes that have come in one by one, a request to write waits for the owner to
take a chunk, however long that may be. -/
theorem overfull_serves_nothing :
    ∃ p, run {} (overfull ++ [.submit (.write [0x55, 0xaa])]) = some ([], p) ∧
      p.pump ≠ .stopped ∧ p.requests = [.write [0x55, 0xaa]] ∧
      ∀ later more q, (∀ m ∈ later, m.takes = false) → p.run later = some (more, q) →
        (∀ request result, .answered request result ∉ more) ∧
          .write [0x55, 0xaa] ∈ q.requests := by
  refine ⟨_, rfl, nofun, rfl, fun later more q hlater hrun => ?_⟩
  obtain ⟨-, hunanswered, hqueue⟩ := Jammed.run ⟨⟨_, rfl⟩, by decide⟩ hrun hlater
  exact ⟨hunanswered, hqueue.subset List.mem_cons_self⟩

end ChipChain.Port
