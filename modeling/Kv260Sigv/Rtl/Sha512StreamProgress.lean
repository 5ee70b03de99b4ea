import Kv260Sigv.Library.Handshake
import Kv260Sigv.Rtl.Sha512StreamResult

/-!
# The stream engine ends, whatever it reads

Nothing the engine reads from the message port has a say in how long it works: with any
word at any time, what is left of the stream keeps its length.  As long as requests are
granted, every start is answered.
-/

set_option autoImplicit false

namespace Kv260Sigv

namespace Sha512StreamEngine

open Handshake

variable {w : ℕ} {prefix1 : BitVec 256} {mem : BitVec (w - 2) → BitVec 32}
  {target : Sha512.Words} {data : BitVec 32} {i : Inputs} {s : State w}

/-! ### Lengths -/

theorem length_prefixBytes (n : ℕ) (x : BitVec 256) : (prefixBytes n x).length = n := by
  rw [prefixBytes_eq, List.length_map, List.length_range]

theorem length_memoryBytes (mem : BitVec (w - 2) → BitVec 32) (n : ℕ) (addr : BitVec w) :
    (memoryBytes mem n addr).length = n := by
  rw [memoryBytes_eq, List.length_map, List.length_range]

/-- The stream is as long for every memory and every second prefix. -/
theorem length_todo (prefix1 prefix1' : BitVec 256) (mem mem' : BitVec (w - 2) → BitVec 32)
    (s : State w) (t : Phase) :
    (todo prefix1 mem s t).length = (todo prefix1' mem' s t).length := by
  cases t <;>
    simp only [todo, messageAndPadding, List.length_append, length_prefixBytes, length_memoryBytes]

/-- What is left of the run, by its registers alone. -/
def left (s : State w) : ℕ := remaining 0 (fun _ => 0) s

theorem remaining_eq_left (prefix1 : BitVec 256) (mem : BitVec (w - 2) → BitVec 32) (s : State w) :
    remaining prefix1 mem s = left s := by
  rw [left, remaining, remaining, length_todo prefix1 0 mem fun _ => 0]

/-! ### Any data -/

/-- At work. -/
def Hashing (s : State w) : Prop :=
  ∃ prefix1 mem target data,
    Feeding prefix1 mem target data s ∨ Crunching prefix1 mem target s

theorem Hashing.atRest (hs : Hashing s) : AtRest s := by
  obtain ⟨_, _, _, _, h | h⟩ := hs
  · exact h.rest
  · exact h.rest

theorem Hashing.silent (hs : Hashing s) : s.done = false := by
  obtain ⟨_, _, _, _, h | h⟩ := hs
  · exact h.done
  · exact h.done

/-- A memory that has the word the engine reads. -/
def agreeing (data : BitVec 32) (s : State w) : BitVec (w - 2) → BitVec 32 :=
  fun _ => if s.state = .msgRead then s.msgWordBuf else data

theorem Supplied.source_agreeing (hs : Supplied mem data s s.state) (data' : BitVec 32) :
    Source (agreeing data' s) data' s s.state := by
  have hsource := hs.source
  unfold agreeing
  cases hphase : s.state <;> rw [hphase] at hsource
  case msgLatch => exact ⟨hsource.1, hsource.2.1, rfl⟩
  case msgRead => exact ⟨hsource.1, hsource.2.1, hsource.2.2.1, rfl⟩
  all_goals exact hsource

/-- The engine feeds for any memory its next byte can be from, and for any second prefix. -/
theorem Feeding.change (hs : Feeding prefix1 mem target data s) (prefix1' : BitVec 256)
    {mem' : BitVec (w - 2) → BitVec 32} {data' : BitVec 32} (hsource : Source mem' data' s s.state) :
    ∃ target', Feeding prefix1' mem' target' data' s := by
  obtain ⟨pending, hindex, hholds⟩ := hs.holds
  refine ⟨_, hs.done, hs.error, hs.rest, hs.phase, ⟨hsource, hs.supplied.length⟩, pending, hindex,
    hholds.buffer, ?_, rfl⟩
  rw [length_todo prefix1' prefix1 mem' mem]
  exact hholds.whole

/-- A cycle of a request, granted or not. -/
theorem Feeding.request_any (hs : Feeding prefix1 mem target data s) (hphase : s.state = .msgReq)
    (i : Inputs) :
    Feeding prefix1 mem target 0 (Sha512StreamEngine.step i s) ∧
      ((s.msgRdEn = true → i.msgRdReady = true) →
        remaining prefix1 mem (Sha512StreamEngine.step i s) < remaining prefix1 mem s) := by
  have hrest := hs.rest.step (i := i)
  have hsupplied := hs.supplied
  rw [hphase] at hsupplied
  obtain ⟨⟨hleft, haddr⟩, hlength⟩ := hsupplied
  have hstep : Sha512StreamEngine.step i s =
      { entry s with
        msgRdEn := true
        msgRdAddr := s.messageAddr
        state := if i.msgRdReady then .msgWait else .msgReq } := by
    rw [step_eq, stepState, hphase]
  have hcount : countdown s = if s.msgRdEn then 2 else 3 := by
    rw [countdown, hphase]
  rw [hstep] at hrest ⊢
  cases hready : i.msgRdReady
  · rw [hready, if_neg Bool.false_ne_true] at hrest
    rw [if_neg Bool.false_ne_true]
    obtain ⟨hfeeding, hcost⟩ := hs.keep .msgReq hrest rfl rfl rfl (by decide) ⟨hleft, haddr⟩
      ⟨rfl, rfl, rfl, rfl, rfl, rfl, rfl, rfl, rfl⟩ (by rw [hphase]) rfl rfl rfl rfl
    refine ⟨hfeeding, ?_⟩
    intro hgrant
    have hlow : s.msgRdEn ≠ true := fun h => Bool.false_ne_true (hgrant h)
    rw [hcount, if_neg hlow] at hcost
    exact Nat.lt_of_add_lt_add_right (hcost.trans_lt (Nat.add_lt_add_left (by decide : 2 < 3) _))
  · rw [hready, if_pos rfl] at hrest
    rw [if_pos rfl]
    obtain ⟨hfeeding, hless⟩ := hs.read .msgWait hrest rfl rfl rfl (by decide)
      ⟨hleft, haddr, rfl, rfl⟩ ⟨rfl, rfl, rfl, rfl, rfl, rfl, rfl, rfl, rfl⟩
      (by rw [hphase]; rfl) rfl rfl rfl rfl (by rw [hcount]; show 1 < _; split <;> decide)
    exact ⟨hfeeding, fun _ => hless⟩

/-- A cycle of the wait for a word, which is on the port after it. -/
theorem Feeding.wait_any (hs : Feeding prefix1 mem target data s) (hphase : s.state = .msgWait)
    (i : Inputs) :
    Feeding prefix1 mem target (mem (wordAddr s.messageAddr)) (Sha512StreamEngine.step i s) ∧
      remaining prefix1 mem (Sha512StreamEngine.step i s) < remaining prefix1 mem s := by
  have hrest := hs.rest.step (i := i)
  have hsupplied := hs.supplied
  rw [hphase] at hsupplied
  obtain ⟨⟨hleft, haddr, -, -⟩, hlength⟩ := hsupplied
  have hstep : Sha512StreamEngine.step i s = { entry s with state := .msgLatch } := by
    rw [step_eq, stepState, hphase]
  rw [hstep] at hrest ⊢
  refine hs.read .msgLatch hrest rfl rfl rfl (by decide) ⟨hleft, haddr, rfl⟩
    ⟨rfl, rfl, rfl, rfl, rfl, rfl, rfl, rfl, rfl⟩ (by rw [hphase]; rfl) rfl rfl rfl rfl ?_
  rw [show countdown s = 1 by rw [countdown, hphase]]
  exact Nat.one_pos

/-- The cycle after the last block. -/
theorem Crunching.finish_idle (hs : Crunching prefix1 mem target s)
    (hdone : s.blockCore.done = true) (hlast : s.blocksRemaining = 1) :
    (Sha512StreamEngine.step i s).done = true ∧ (Sha512StreamEngine.step i s).state = .idle := by
  refine ⟨(hs.finish hdone hlast).done, ?_⟩
  rw [step_eq, stepState, hs.phase]
  dsimp only
  rw [if_pos hdone, if_pos hlast]

/-- One cycle at work, with any inputs; a grant brings it closer to the end. -/
theorem Hashing.step (hw : 2 ≤ w) (i : Inputs) (hs : Hashing s) :
    ((Sha512StreamEngine.step i s).done = true ∧ (Sha512StreamEngine.step i s).state = .idle) ∨
      Hashing (Sha512StreamEngine.step i s) ∧
        ((s.msgRdEn = true → i.msgRdReady = true) →
          left (Sha512StreamEngine.step i s) < left s) := by
  obtain ⟨prefix1, mem, target, data, hs | hs⟩ := hs
  · -- the memory is chosen for the word of this cycle
    obtain ⟨target', hs⟩ := hs.change i.prefix1 (hs.supplied.source_agreeing i.msgRdData)
    rw [← remaining_eq_left i.prefix1 (agreeing i.msgRdData s),
      ← remaining_eq_left i.prefix1 (agreeing i.msgRdData s)]
    right
    by_cases hreq : s.state = .msgReq
    · obtain ⟨hnext, hless⟩ := hs.request_any hreq i
      exact ⟨⟨_, _, _, _, .inl hnext⟩, hless⟩
    by_cases hwait : s.state = .msgWait
    · obtain ⟨hnext, hless⟩ := hs.wait_any hwait i
      exact ⟨⟨_, _, _, _, .inl hnext⟩, fun _ => hless⟩
    · obtain ⟨hnext, hless⟩ :=
        hs.push (step_takes hw ⟨hs.phase.1, hs.phase.2, hreq, hwait⟩ hs.supplied rfl) 0
      exact ⟨⟨_, _, _, _, hnext⟩, fun _ => hless⟩
  · rw [← remaining_eq_left prefix1 mem, ← remaining_eq_left prefix1 mem]
    cases hdone : s.blockCore.done with
    | false =>
        obtain ⟨hnext, hless⟩ := hs.wait (i := i) hdone
        exact .inr ⟨⟨prefix1, mem, target, data, .inr hnext⟩, fun _ => hless⟩
    | true =>
        by_cases hlast : s.blocksRemaining = 1
        · exact .inl (hs.finish_idle hdone hlast)
        · obtain ⟨hnext, hless⟩ := hs.resume_feeding (i := i) hdone hlast 0
          exact .inr ⟨⟨_, _, _, _, .inl hnext⟩, fun _ => hless⟩

/-! ### The engine as a server -/

/-- The stream engine with the ports its controller sees. -/
def hashServer (w : ℕ) : Server Inputs (State w) where
  step := step
  start := Inputs.start
  done := State.done
  Idle := fun s => AtRest s ∧ s.state = .idle
  Busy := Hashing
  Answer := fun _ => True

/-- A start is answered at once or taken. -/
theorem step_start (hw : w < 32) (hrest : AtRest s) (hidle : s.state = .idle)
    (hstart : i.start = true) :
    ((step i s).done = true ∧ (step i s).state = .idle) ∨ Hashing (step i s) := by
  rcases Nat.lt_or_ge (2 ^ w) i.messageLength.toNat with hlong | hfits
  · left
    rw [step_refuse hw hidle hstart hlong]
    exact ⟨rfl, rfl⟩
  · right
    obtain ⟨target, -, hfeeding⟩ :=
      @feeding_of_load w i s (fun _ => 0) hw hrest hidle hstart hfits 0
    exact ⟨_, _, _, _, .inl hfeeding⟩

theorem sound_hashServer (hlow : 2 ≤ w) (hhigh : w < 32) : (hashServer w).Sound where
  rest := by
    rintro i s ⟨hrest, hidle⟩ hstart
    have hstep : step i s = entry s := by
      rw [step_eq, stepState, hidle]
      dsimp only
      rw [if_neg (by rw [show i.start = false from hstart]; exact Bool.false_ne_true)]
    refine ⟨⟨hrest.step, ?_⟩, ?_⟩
    · show (step i s).state = .idle
      rw [hstep]
      exact hidle
    · show (step i s).done = false
      rw [hstep]
      rfl
  accept := by
    rintro i s ⟨hrest, hidle⟩ hstart
    rcases step_start hhigh hrest hidle hstart with ⟨hdone, hidle'⟩ | hhashing
    · exact .answered ⟨hrest.step, hidle'⟩ hdone trivial
    · exact .working hhashing hhashing.silent
  work := by
    rintro i s hs _
    have hrest := (Hashing.atRest hs).step (i := i)
    rcases Hashing.step hlow i hs with ⟨hdone, hidle⟩ | ⟨hnext, -⟩
    · exact .answered ⟨hrest, hidle⟩ hdone trivial
    · exact .working hnext hnext.silent

/-- With every request granted, every start is answered. -/
theorem live_hashServer (hlow : 2 ≤ w) (hhigh : w < 32) :
    (hashServer w).Live fun s i => s.msgRdEn = true → i.msgRdReady = true := by
  refine Server.live_of_measure left (fun s hs => Hashing.silent hs) ?_ ?_
  · rintro i s ⟨hrest, hidle⟩ hstart _
    exact (step_start hhigh hrest hidle hstart).imp_left And.left
  · intro i s hs hgrant
    rcases Hashing.step hlow i hs with ⟨hdone, -⟩ | ⟨hnext, hless⟩
    · exact .inl hdone
    · exact .inr ⟨hnext, hless hgrant⟩

end Sha512StreamEngine

end Kv260Sigv
