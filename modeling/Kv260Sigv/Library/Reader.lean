import Kv260Sigv.Library.Outcome

/-!
# Offset-threading readers and the languages they recognize

A hand-written recursive-descent parser threads an offset through a fixed
buffer.  `Spans data start stop seg` says that `seg` is what the buffer holds
between two offsets; `Reads r G data` says that the reader `r` returns `a` and
moves from `start` to `stop` exactly when the segment in between is a word of
`G a`.  It is an equivalence, so it is soundness and completeness at once, and
two readers of one language agree wherever either succeeds.

`Reads.bind` and `Reads.iterate` are the two composition rules: a `do` block
reads the concatenation, a `for` loop the iterated concatenation.
-/

namespace Reader

variable {ε ε' α β γ δ : Type}

/-- The buffer holds `seg` from offset `start` to offset `stop`. -/
def Spans (data : List α) (start stop : ℕ) (seg : List α) : Prop :=
  ∃ rest, data.drop start = seg ++ rest ∧ stop = start + seg.length

namespace Spans

variable {data : List α} {start mid stop : ℕ} {seg left right : List α}

theorem stop_eq (h : Spans data start stop seg) : stop = start + seg.length :=
  let ⟨_, _, hstop⟩ := h
  hstop

theorem stop_le (h : Spans data start stop seg) (hstart : start ≤ data.length) :
    stop ≤ data.length := by
  obtain ⟨rest, hdrop, rfl⟩ := h
  have := congrArg List.length hdrop
  simp only [List.length_drop, List.length_append] at this
  omega

theorem drop_stop (h : Spans data start stop seg) :
    data.drop start = seg ++ data.drop stop := by
  obtain ⟨rest, hdrop, rfl⟩ := h
  rw [← List.drop_drop, hdrop]
  simp

@[simp] theorem nil_iff : Spans data start stop [] ↔ stop = start := by
  constructor
  · rintro ⟨_, _, h⟩
    simpa using h
  · rintro rfl
    exact ⟨_, rfl, by simp⟩

theorem append (h₁ : Spans data start mid left) (h₂ : Spans data mid stop right) :
    Spans data start stop (left ++ right) := by
  refine ⟨data.drop stop, ?_, ?_⟩
  · rw [h₁.drop_stop, h₂.drop_stop, List.append_assoc]
  · rw [h₂.stop_eq, h₁.stop_eq, List.length_append, Nat.add_assoc]

theorem of_append (h : Spans data start stop (left ++ right)) :
    Spans data start (start + left.length) left ∧
      Spans data (start + left.length) stop right := by
  obtain ⟨rest, hdrop, rfl⟩ := h
  refine ⟨⟨right ++ rest, by simpa using hdrop, rfl⟩, rest, ?_, ?_⟩
  · rw [← List.drop_drop, hdrop]
    simp
  · simp [Nat.add_assoc]

/-- The segment between two offsets is determined by them. -/
theorem seg_eq (h : Spans data start stop seg) :
    seg = (data.drop start).take (stop - start) := by
  obtain ⟨rest, hdrop, rfl⟩ := h
  simp [hdrop]

theorem unique {seg' : List α} (h : Spans data start stop seg)
    (h' : Spans data start stop seg') : seg = seg' := by
  rw [h.seg_eq, h'.seg_eq]

/-- Every admissible pair of offsets spans the slice between them. -/
theorem of_le (h₁ : start ≤ stop) (h₂ : stop ≤ data.length) :
    Spans data start stop ((data.drop start).take (stop - start)) := by
  refine ⟨(data.drop start).drop (stop - start), (List.take_append_drop _ _).symm, ?_⟩
  simp only [List.length_take, List.length_drop]
  omega

end Spans

/-! ### Languages -/

/-- Words of `G` followed by a word of the language `H` picks for it. -/
def Seq (G : β → List α → Prop) (H : β → γ → List α → Prop) : γ → List α → Prop :=
  fun c seg => ∃ b left right, seg = left ++ right ∧ G b left ∧ H b c right

/-- `n` words of `P`, one after the other. -/
inductive Repeats (P : List α → Prop) : ℕ → List α → Prop
  | zero : Repeats P 0 []
  | succ {n : ℕ} {left right : List α} :
      P left → Repeats P n right → Repeats P (n + 1) (left ++ right)

theorem repeats_zero {P : List α → Prop} {seg : List α} :
    Repeats P 0 seg ↔ seg = [] := by
  constructor
  · intro h
    cases h
    rfl
  · rintro rfl
    exact .zero

theorem repeats_succ {P : List α → Prop} {n : ℕ} {seg : List α} :
    Repeats P (n + 1) seg ↔
      ∃ left right, seg = left ++ right ∧ P left ∧ Repeats P n right := by
  constructor
  · intro h
    cases h with
    | succ hleft hright => exact ⟨_, _, rfl, hleft, hright⟩
  · rintro ⟨left, right, rfl, hleft, hright⟩
    exact .succ hleft hright

/-! ### Readers -/

/-- `r` returns `b` and advances over a segment exactly when the segment is a
word of `G b`. -/
def Reads (r : ℕ → Outcome ε (β × ℕ)) (G : β → List α → Prop) (data : List α) : Prop :=
  ∀ start ≤ data.length, ∀ b stop,
    r start = .ok (b, stop) ↔ ∃ seg, Spans data start stop seg ∧ G b seg

/-- `Reads` for a reader whose only result is the offset. -/
def Skips (r : ℕ → Outcome ε ℕ) (P : List α → Prop) (data : List α) : Prop :=
  ∀ start ≤ data.length, ∀ stop,
    r start = .ok stop ↔ ∃ seg, Spans data start stop seg ∧ P seg

/-- `r` aborts at no offset inside the buffer. -/
def Safe (r : ℕ → Outcome ε δ) (data : List α) : Prop :=
  ∀ start ≤ data.length, r start ≠ .panic

theorem Reads.stop_le {r : ℕ → Outcome ε (β × ℕ)} {G : β → List α → Prop}
    {data : List α} (hr : Reads r G data) {start stop : ℕ} (hstart : start ≤ data.length)
    {b : β} (h : r start = .ok (b, stop)) : stop ≤ data.length := by
  obtain ⟨seg, hseg, -⟩ := (hr start hstart b stop).mp h
  exact hseg.stop_le hstart

theorem Skips.stop_le {r : ℕ → Outcome ε ℕ} {P : List α → Prop} {data : List α}
    (hr : Skips r P data) {start stop : ℕ} (hstart : start ≤ data.length)
    (h : r start = .ok stop) : stop ≤ data.length := by
  obtain ⟨seg, hseg, -⟩ := (hr start hstart stop).mp h
  exact hseg.stop_le hstart

/-- A reader followed by a reader chosen by its result. -/
theorem Reads.bind {r : ℕ → Outcome ε (β × ℕ)} {k : β → ℕ → Outcome ε (γ × ℕ)}
    {G : β → List α → Prop} {H : β → γ → List α → Prop} {data : List α}
    (hr : Reads r G data) (hk : ∀ b, Reads (k b) (H b) data) :
    Reads (fun start => r start >>= fun p => k p.1 p.2) (Seq G H) data := by
  intro start hstart c stop
  simp only [Outcome.bind_eq_ok]
  constructor
  · rintro ⟨⟨b, mid⟩, hb, hc⟩
    have hmid := hr.stop_le hstart hb
    obtain ⟨left, hleft, hG⟩ := (hr start hstart b mid).mp hb
    obtain ⟨right, hright, hH⟩ := (hk b mid hmid c stop).mp hc
    exact ⟨left ++ right, hleft.append hright, b, left, right, rfl, hG, hH⟩
  · rintro ⟨_, hseg, b, left, right, rfl, hG, hH⟩
    obtain ⟨hleft, hright⟩ := hseg.of_append
    refine ⟨(b, start + left.length), (hr start hstart b _).mpr ⟨left, hleft, hG⟩, ?_⟩
    exact (hk b _ (hleft.stop_le hstart) c stop).mpr ⟨right, hright, hH⟩

/-- A reader followed by a skip chosen by its result. -/
theorem Reads.bindSkip {r : ℕ → Outcome ε (β × ℕ)} {k : β → ℕ → Outcome ε ℕ}
    {G : β → List α → Prop} {P : β → List α → Prop} {data : List α}
    (hr : Reads r G data) (hk : ∀ b, Skips (k b) (P b) data) :
    Skips (fun start => r start >>= fun p => k p.1 p.2)
      (fun seg => ∃ b left right, seg = left ++ right ∧ G b left ∧ P b right) data := by
  intro start hstart stop
  simp only [Outcome.bind_eq_ok]
  constructor
  · rintro ⟨⟨b, mid⟩, hb, hc⟩
    have hmid := hr.stop_le hstart hb
    obtain ⟨left, hleft, hG⟩ := (hr start hstart b mid).mp hb
    obtain ⟨right, hright, hH⟩ := (hk b mid hmid stop).mp hc
    exact ⟨left ++ right, hleft.append hright, b, left, right, rfl, hG, hH⟩
  · rintro ⟨_, hseg, b, left, right, rfl, hG, hH⟩
    obtain ⟨hleft, hright⟩ := hseg.of_append
    refine ⟨(b, start + left.length), (hr start hstart b _).mpr ⟨left, hleft, hG⟩, ?_⟩
    exact (hk b _ (hleft.stop_le hstart) stop).mpr ⟨right, hright, hH⟩

/-- The skip that does nothing. -/
theorem skips_ok (data : List α) :
    Skips (fun start => (.ok start : Outcome ε ℕ)) (fun seg => seg = []) data := by
  intro start _ stop
  constructor
  · intro h
    cases h
    exact ⟨[], by simp⟩
  · rintro ⟨_, hseg, rfl⟩
    rw [Spans.nil_iff.mp hseg]

/-- A loop of skips reads the iterated concatenation. -/
theorem Skips.iterate {r : ℕ → Outcome ε ℕ} {P : List α → Prop} {data : List α}
    (hr : Skips r P data) (n : ℕ) : Skips (Outcome.iterate r n) (Repeats P n) data := by
  induction n with
  | zero =>
      intro start hstart stop
      simp only [Outcome.iterate_zero, repeats_zero]
      exact skips_ok data start hstart stop
  | succ n ih =>
      intro start hstart stop
      simp only [Outcome.iterate_succ, Outcome.bind_eq_ok, repeats_succ]
      constructor
      · rintro ⟨mid, hmid, hrest⟩
        obtain ⟨left, hleft, hP⟩ := (hr start hstart mid).mp hmid
        obtain ⟨right, hright, hR⟩ := (ih mid (hleft.stop_le hstart) stop).mp hrest
        exact ⟨left ++ right, hleft.append hright, left, right, rfl, hP, hR⟩
      · rintro ⟨_, hseg, left, right, rfl, hP, hR⟩
        obtain ⟨hleft, hright⟩ := hseg.of_append
        refine ⟨start + left.length, (hr start hstart _).mpr ⟨left, hleft, hP⟩, ?_⟩
        exact (ih _ (hleft.stop_le hstart) stop).mpr ⟨right, hright, hR⟩

/-- Two readers of one language return the same results. -/
theorem Reads.ok_iff {r : ℕ → Outcome ε (β × ℕ)} {r' : ℕ → Outcome ε' (β × ℕ)}
    {G : β → List α → Prop} {data : List α} (hr : Reads r G data) (hr' : Reads r' G data)
    {start : ℕ} (hstart : start ≤ data.length) (b : β) (stop : ℕ) :
    r start = .ok (b, stop) ↔ r' start = .ok (b, stop) := by
  rw [hr start hstart, hr' start hstart]

/-! ### Readers that do not abort -/

theorem Safe.bind {r : ℕ → Outcome ε (β × ℕ)} {k : β → ℕ → Outcome ε γ}
    {G : β → List α → Prop} {data : List α} (hr : Reads r G data) (hs : Safe r data)
    (hk : ∀ b, Safe (k b) data) :
    Safe (fun start => r start >>= fun p => k p.1 p.2) data := by
  intro start hstart h
  rw [Outcome.bind_eq_panic] at h
  rcases h with h | ⟨⟨b, mid⟩, hb, h⟩
  · exact hs start hstart h
  · exact hk b mid (hr.stop_le hstart hb) h

theorem Safe.iterate {r : ℕ → Outcome ε ℕ} {P : List α → Prop} {data : List α}
    (hr : Skips r P data) (hs : Safe r data) (n : ℕ) :
    Safe (Outcome.iterate r n) data :=
  fun start hstart =>
    Outcome.iterate_ne_panic (· ≤ data.length) hs
      (fun _ _ hinv hok => hr.stop_le hinv hok) n start hstart

end Reader
