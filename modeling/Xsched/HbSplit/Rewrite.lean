import Mathlib.Data.List.TakeWhile
import Mathlib.Data.Option.Basic
import Xsched.HbSplit.Ptx

/-!
# What the rewriter does to a text

A match of the expression runs to the first `;` behind its start, and to no
other. So the rewriter works on one statement at a time, a statement being the
text between two semicolons: one that ends in a recognised read is replaced
(`rewriteGo_mov`), any other is copied (`rewriteGo_copy`).
-/
namespace Xsched.HbSplit

/-! ## The matcher -/

theorem strip_eq_some {lit t r : Text} : strip lit t = some r ↔ t = lit ++ r := by
  unfold strip
  split
  · next h =>
    obtain ⟨u, rfl⟩ := List.isPrefixOf_iff_prefix.1 h
    rw [Option.some_inj, List.drop_left, List.append_cancel_left_eq]
  · next h =>
    constructor
    · intro he
      cases he
    · rintro rfl
      exact absurd (List.isPrefixOf_iff_prefix.2 (List.prefix_append _ _)) h

/-- The groups of a match hold what the expression says. -/
structure Mov.Valid (m : Mov) : Prop where
  ind : ∀ c ∈ m.ind, isBlank c = true
  ws₁ : ∀ c ∈ m.ws₁, isSpace c = true
  ws₁_ne : m.ws₁ ≠ []
  reg : ∃ name, m.reg = '%' :: name ∧ name ≠ [] ∧ ∀ c ∈ name, isWord c = true
  ws₂ : ∀ c ∈ m.ws₂, isSpace c = true
  ws₃ : ∀ c ∈ m.ws₃, isSpace c = true
  ws₄ : ∀ c ∈ m.ws₄, isSpace c = true

/-- The match behind its first group, followed by `rest`. -/
def Mov.tail (m : Mov) (a : Axis) (rest : Text) : Text :=
  m.ind ++ ("mov.u32".toList ++ (m.ws₁ ++ (m.reg ++ (m.ws₂ ++ ([','] ++ (m.ws₃ ++
    (ctaid a ++ (m.ws₄ ++ ([';'] ++ rest)))))))))

theorem Mov.text_append (m : Mov) (a : Axis) (rest : Text) :
    m.text a ++ rest = m.nl ++ m.tail a rest := by
  simp only [Mov.text, Mov.before, Mov.tail, List.append_assoc]

/-- A greedy repetition stops where the next character is not one of its own. -/
theorem span_append {p : Char → Bool} {w t : Text} (hw : ∀ d ∈ w, p d = true)
    (ht : ∀ d ∈ t.head?, p d = false) : (w ++ t).takeWhile p = w ∧ (w ++ t).dropWhile p = t := by
  rw [List.takeWhile_append_of_pos hw, List.dropWhile_append_of_pos hw]
  cases t with
  | nil => exact ⟨List.append_nil w, rfl⟩
  | cons c t =>
    rw [List.takeWhile_cons, List.dropWhile_cons, ht c rfl]
    exact ⟨List.append_nil w, rfl⟩

theorem strip_append (lit r : Text) : strip lit (lit ++ r) = some r := strip_eq_some.2 rfl

theorem matchLine_sound {a : Axis} {nl t : Text} {m : Mov} (h : matchLine a nl t = some m) :
    m.Valid ∧ m.nl = nl ∧ ∃ rest, t = m.tail a rest := by
  simp only [matchLine, Option.bind_eq_bind, Option.bind_eq_some_iff, Option.guard_eq_some',
    strip_eq_some, Option.pure_def, Option.some_inj] at h
  obtain ⟨t₁, h₁, -, hws₁, t₂, h₂, -, hname, t₄, h₄, t₅, h₅, rest, h₆, rfl⟩ := h
  refine ⟨⟨fun c hc => List.mem_takeWhile_imp hc, fun c hc => List.mem_takeWhile_imp hc, hws₁,
    ⟨_, rfl, hname, fun c hc => List.mem_takeWhile_imp hc⟩,
    fun c hc => List.mem_takeWhile_imp hc, fun c hc => List.mem_takeWhile_imp hc,
    fun c hc => List.mem_takeWhile_imp hc⟩, rfl, rest, ?_⟩
  simp only [Mov.tail]
  rw [← h₆, List.takeWhile_append_dropWhile, ← h₅, List.takeWhile_append_dropWhile, ← h₄,
    List.takeWhile_append_dropWhile, List.cons_append, List.takeWhile_append_dropWhile,
    ← List.singleton_append, ← h₂, List.takeWhile_append_dropWhile, ← h₁,
    List.takeWhile_append_dropWhile]

/-- What may follow a register name does not go on with it. -/
theorem head_space_append {w : Text} (hw : ∀ d ∈ w, isSpace d = true) {c : Char}
    (hc : isWord c = false) (t : Text) : ∀ d ∈ (w ++ ([c] ++ t)).head?, isWord d = false := by
  cases w with
  | nil =>
    intro d hd
    cases hd
    exact hc
  | cons e w =>
    intro d hd
    cases hd
    have he := hw e (List.mem_cons_self)
    simp only [isSpace, Bool.or_eq_true, decide_eq_true_eq] at he
    rcases he with ((((rfl | rfl) | rfl) | rfl) | rfl) | rfl <;> decide

theorem matchLine_complete {m : Mov} (hm : m.Valid) (a : Axis) (rest : Text) :
    matchLine a m.nl (m.tail a rest) = some m := by
  obtain ⟨name, hreg, hne, hname⟩ := hm.reg
  have h₁ := fun t : Text => span_append (t := "mov.u32".toList ++ t) hm.ind (by
    intro d hd
    cases hd
    decide)
  have h₂ := fun t : Text => span_append (t := ['%'] ++ t) hm.ws₁ (by
    intro d hd
    cases hd
    decide)
  have h₃ := fun t : Text => span_append hname (head_space_append hm.ws₂ (c := ',') (by decide) t)
  have h₄ := fun t : Text => span_append (t := [','] ++ t) hm.ws₂ (by
    intro d hd
    cases hd
    decide)
  have h₅ := fun t : Text => span_append (t := ctaid a ++ t) hm.ws₃ (by
    intro d hd
    cases hd
    decide)
  have h₆ := fun t : Text => span_append (t := [';'] ++ t) hm.ws₄ (by
    intro d hd
    cases hd
    decide)
  have hcons : ∀ t : Text, m.reg ++ t = ['%'] ++ (name ++ t) := by
    intro t
    rw [hreg]
    rfl
  simp only [matchLine, Mov.tail, hcons, h₁, h₂, h₃, h₄, h₅, h₆, strip_append,
    Option.bind_eq_bind, Option.bind_some, guard, hm.ws₁_ne, hne, ne_eq, not_false_eq_true, if_true]
  rw [← hreg]
  rfl

/-! ## A match at a place -/

/-- The first group: a newline, or nothing at the start of the text. -/
def Mov.StartsAt (m : Mov) (start : Bool) : Prop := m.nl = ['\n'] ∨ m.nl = [] ∧ start = true

theorem matchAt_sound {a : Axis} {start : Bool} {t : Text} {m : Mov}
    (h : matchAt a start t = some m) :
    m.Valid ∧ m.StartsAt start ∧ ∃ rest, t = m.text a ++ rest := by
  unfold matchAt at h
  split at h
  · next m' heq =>
    cases h
    split at heq
    · next hstart =>
      obtain ⟨hv, hnl, rest, rfl⟩ := matchLine_sound heq
      refine ⟨hv, .inr ⟨hnl, hstart⟩, rest, ?_⟩
      rw [Mov.text_append, hnl]
      rfl
    · cases heq
  · obtain ⟨hv, hnl, rest, rfl⟩ := matchLine_sound h
    refine ⟨hv, .inl hnl, rest, ?_⟩
    rw [Mov.text_append, hnl]
    rfl
  · cases h

theorem matchAt_complete {m : Mov} (hm : m.Valid) (a : Axis) {start : Bool}
    (hs : m.StartsAt start) (rest : Text) : matchAt a start (m.text a ++ rest) = some m := by
  rw [Mov.text_append]
  rcases hs with hnl | ⟨hnl, rfl⟩
  · have hnone : ∀ t : Text, matchLine a [] ('\n' :: t) = none := fun t => rfl
    have hline : (if start then matchLine a [] ('\n' :: m.tail a rest) else none) = none := by
      rw [hnone]
      exact ite_self none
    rw [hnl, List.singleton_append]
    simp only [matchAt, hline]
    rw [← hnl]
    exact matchLine_complete hm a rest
  · have hline := matchLine_complete hm a rest
    rw [hnl] at hline ⊢
    simp only [matchAt, List.nil_append, if_true, hline]

/-! ## Where a match can be -/

theorem append_cons_first {c : Char} {s s' r r' : Text} (h : c ∉ s) (h' : c ∉ s')
    (he : s ++ c :: r = s' ++ c :: r') : s = s' ∧ r = r' := by
  induction s generalizing s' with
  | nil =>
    cases s' with
    | nil => exact ⟨rfl, List.tail_eq_of_cons_eq he⟩
    | cons d s' =>
      have hd := List.head_eq_of_cons_eq he
      exact absurd (hd ▸ List.mem_cons_self) h'
  | cons d s ih =>
    cases s' with
    | nil =>
      have hd := List.head_eq_of_cons_eq he
      exact absurd (hd ▸ List.mem_cons_self) h
    | cons d' s' =>
      rw [List.cons_append, List.cons_append, List.cons_eq_cons] at he
      obtain ⟨rfl, he⟩ := he
      obtain ⟨rfl, hr⟩ := ih (List.not_mem_of_not_mem_cons h) (List.not_mem_of_not_mem_cons h') he
      exact ⟨rfl, hr⟩

theorem append_cons_last {c : Char} {s s' r r' : Text} (h : c ∉ r) (h' : c ∉ r')
    (he : s ++ c :: r = s' ++ c :: r') : s = s' ∧ r = r' := by
  have hrev := congrArg List.reverse he
  simp only [List.reverse_append, List.reverse_cons, List.append_assoc,
    List.singleton_append] at hrev
  obtain ⟨hr, hs⟩ := append_cons_first (by simpa using h) (by simpa using h') hrev
  exact ⟨List.reverse_injective hs, List.reverse_injective hr⟩

theorem not_mem_of_all {p : Char → Bool} {w : Text} {c : Char} (hw : ∀ d ∈ w, p d = true)
    (hc : p c = false) : c ∉ w := by
  intro h
  rw [hw c h] at hc
  cases hc

/-- A match without its semicolon. -/
def Mov.stmt (m : Mov) (a : Axis) : Text := m.before ++ ctaid a ++ m.ws₄

theorem Mov.text_eq (m : Mov) (a : Axis) : m.text a = m.stmt a ++ [';'] := rfl

theorem Axis.char_inj {a b : Axis} (h : a.char = b.char) : a = b := by
  cases a <;> cases b <;> first | rfl | exact absurd h (by decide)

section Unique

variable {m m' : Mov} {a b : Axis} {p : Text}

theorem Mov.before_suffix (hm : m.Valid) (hm' : m'.Valid) (h : m.before = p ++ m'.before) :
    m.nl ++ m.ind = p ++ (m'.nl ++ m'.ind) := by
  obtain ⟨name, hreg, -, hname⟩ := hm.reg
  obtain ⟨name', hreg', -, hname'⟩ := hm'.reg
  have hword : ∀ {n w : Text}, (∀ d ∈ n, isWord d = true) → (∀ d ∈ w, isSpace d = true) →
      '%' ∉ n ++ w := by
    intro n w hn hw
    rw [List.mem_append, not_or]
    exact ⟨not_mem_of_all hn (by decide), not_mem_of_all hw (by decide)⟩
  have hdot : ∀ {w : Text}, (∀ d ∈ w, isSpace d = true) → '.' ∉ "u32".toList ++ w := by
    intro w hw
    rw [List.mem_append, not_or]
    exact ⟨by decide, not_mem_of_all hw (by decide)⟩
  -- the last comma, then the last percent sign before it, then the last dot
  have e₁ : (m.nl ++ m.ind ++ "mov.u32".toList ++ m.ws₁ ++ m.reg ++ m.ws₂) ++ ',' :: m.ws₃ =
      (p ++ (m'.nl ++ m'.ind ++ "mov.u32".toList ++ m'.ws₁ ++ m'.reg ++ m'.ws₂)) ++
        ',' :: m'.ws₃ := by
    simpa only [Mov.before, List.append_assoc, List.singleton_append] using h
  obtain ⟨e₂, -⟩ := append_cons_last (not_mem_of_all hm.ws₃ (by decide))
    (not_mem_of_all hm'.ws₃ (by decide)) e₁
  have e₃ : (m.nl ++ m.ind ++ "mov.u32".toList ++ m.ws₁) ++ '%' :: (name ++ m.ws₂) =
      (p ++ (m'.nl ++ m'.ind ++ "mov.u32".toList ++ m'.ws₁)) ++ '%' :: (name' ++ m'.ws₂) := by
    simpa only [hreg, hreg', List.append_assoc, List.cons_append] using e₂
  obtain ⟨e₄, hnames⟩ := append_cons_last (hword hname hm.ws₂) (hword hname' hm'.ws₂) e₃
  have e₅ : (m.nl ++ m.ind ++ "mov".toList) ++ '.' :: ("u32".toList ++ m.ws₁) =
      (p ++ (m'.nl ++ m'.ind ++ "mov".toList)) ++ '.' :: ("u32".toList ++ m'.ws₁) := by
    have hlit : "mov.u32".toList = "mov".toList ++ '.' :: "u32".toList := rfl
    simpa only [hlit, List.append_assoc, List.cons_append] using e₄
  obtain ⟨e₆, -⟩ := append_cons_last (hdot hm.ws₁) (hdot hm'.ws₁) e₅
  have e₇ : (m.nl ++ m.ind) ++ "mov".toList = (p ++ (m'.nl ++ m'.ind)) ++ "mov".toList := by
    simpa only [List.append_assoc] using e₆
  exact List.append_cancel_right e₇

theorem not_mem_ctaid_tail {a : Axis} {w : Text} (hw : ∀ d ∈ w, isSpace d = true) :
    '%' ∉ "ctaid.".toList ++ a.char :: w := by
  rw [List.mem_append, List.mem_cons, not_or, not_or]
  refine ⟨by decide, ?_, not_mem_of_all hw (by decide)⟩
  cases a <;> decide

/-- A statement ends in at most one recognised read. -/
theorem Mov.stmt_suffix (hm : m.Valid) (hm' : m'.Valid) (h : m.stmt a = p ++ m'.stmt b) :
    a = b ∧ m.before = p ++ m'.before ∧ m.ws₄ = m'.ws₄ := by
  have e : m.before ++ '%' :: ("ctaid.".toList ++ a.char :: m.ws₄) =
      (p ++ m'.before) ++ '%' :: ("ctaid.".toList ++ b.char :: m'.ws₄) := by
    have hlit : ∀ c : Axis, ctaid c = '%' :: ("ctaid.".toList ++ [c.char]) := fun c => rfl
    simpa only [Mov.stmt, hlit, List.append_assoc, List.cons_append, List.nil_append]
      using h
  obtain ⟨hbefore, hafter⟩ :=
    append_cons_last (not_mem_ctaid_tail hm.ws₄) (not_mem_ctaid_tail hm'.ws₄) e
  have htail := List.append_cancel_left hafter
  rw [List.cons_eq_cons] at htail
  exact ⟨Axis.char_inj htail.1, hbefore, htail.2⟩

theorem Mov.nl_suffix {start : Bool} (hm : m.Valid) (hs : m.StartsAt start)
    (hnl : m'.nl = ['\n']) (h : m.nl ++ m.ind = p ++ (m'.nl ++ m'.ind)) : p = [] := by
  have hind : '\n' ∉ m.ind := not_mem_of_all hm.ind (by decide)
  rw [hnl] at h
  rcases hs with hnl' | ⟨hnl', -⟩
  · rw [hnl'] at h
    cases p with
    | nil => rfl
    | cons c p =>
      rw [List.singleton_append, List.cons_append, List.cons_eq_cons] at h
      refine absurd ?_ hind
      rw [h.2]
      simp
  · rw [hnl', List.nil_append] at h
    refine absurd ?_ hind
    rw [h]
    simp

/-- A character of no group and of no literal of the expression. -/
def Foreign (c : Char) : Prop :=
  isBlank c = false ∧ isSpace c = false ∧ isWord c = false ∧ c ≠ '%' ∧ c ≠ ',' ∧ c ≠ '.'

instance (c : Char) : Decidable (Foreign c) := inferInstanceAs (Decidable (_ ∧ _))

/-- The characters of the literals. -/
def isPlain (c : Char) : Bool := isWord c || isSpace c || c = '%' || c = '.' || c = ','

theorem Foreign.not_mem {c : Char} {w : Text} (hc : Foreign c) (hw : w.all isPlain = true) :
    c ∉ w := by
  intro h
  obtain ⟨-, hspace, hword, hpercent, hcomma, hdot⟩ := hc
  have hplain := List.all_eq_true.1 hw c h
  simp only [isPlain, hspace, hword, Bool.or_eq_true, decide_eq_true_eq, Bool.false_eq_true,
    or_false, false_or] at hplain
  rcases hplain with (h | h) | h
  · exact hpercent h
  · exact hdot h
  · exact hcomma h

theorem ctaid_not_mem {c : Char} (hc : Foreign c) (a : Axis) : c ∉ ctaid a :=
  hc.not_mem (by cases a <;> rfl)

theorem Mov.not_mem_stmt {start : Bool} {c : Char} (hm : m.Valid) (hs : m.StartsAt start)
    (hc : Foreign c) (a : Axis) : c ∉ m.stmt a := by
  obtain ⟨name, hreg, -, hname⟩ := hm.reg
  have hnl : c ∉ m.nl := by
    rcases hs with hnl | ⟨hnl, -⟩ <;> rw [hnl]
    · exact hc.not_mem rfl
    · exact List.not_mem_nil
  have hmov : c ∉ "mov.u32".toList := hc.not_mem rfl
  have hcomma : c ∉ [','] := hc.not_mem rfl
  simp only [Mov.stmt, Mov.before, List.mem_append, not_or, hreg, List.mem_cons]
  exact ⟨⟨⟨⟨⟨⟨⟨⟨⟨hnl, not_mem_of_all hm.ind hc.1⟩, hmov⟩, not_mem_of_all hm.ws₁ hc.2.1⟩,
    hc.2.2.2.1, not_mem_of_all hname hc.2.2.1⟩, not_mem_of_all hm.ws₂ hc.2.1⟩, by simpa using hcomma⟩,
    not_mem_of_all hm.ws₃ hc.2.1⟩, ctaid_not_mem hc a⟩, not_mem_of_all hm.ws₄ hc.2.1⟩

theorem Mov.not_semi {start : Bool} (hm : m.Valid) (hs : m.StartsAt start) (a : Axis) :
    ';' ∉ m.stmt a :=
  Mov.not_mem_stmt hm hs (by decide) a

end Unique

/-! ## One statement -/

/-- The statement `s` ends in a read of axis `a` that the rewriter recognises;
`pre` is what stands before it. -/
structure Ends (a : Axis) (start : Bool) (s pre : Text) (m : Mov) : Prop where
  valid : m.Valid
  nl : m.nl = ['\n'] ∨ m.nl = [] ∧ start = true ∧ pre = []
  eq : s = pre ++ m.stmt a

section Statement

variable {a b : Axis} {start : Bool} {s pre : Text} {m m' : Mov}

theorem Ends.startsAt (h : Ends a start s pre m) : m.StartsAt start := by
  rcases h.nl with hnl | ⟨hnl, hstart, -⟩
  · exact .inl hnl
  · exact .inr ⟨hnl, hstart⟩

theorem Ends.cons {c : Char} (h : Ends a false s pre m) : Ends a start (c :: s) (c :: pre) m := by
  refine ⟨h.valid, ?_, by rw [h.eq]; rfl⟩
  rcases h.nl with hnl | ⟨-, hfalse, -⟩
  · exact .inl hnl
  · cases hfalse

/-- No other axis, and no other place, is recognised. -/
theorem Ends.unique {pre' : Text} (h : Ends a start s pre m)
    (h' : Ends b start s pre' m') : a = b ∧ pre ++ m.before = pre' ++ m'.before ∧ m.ws₄ = m'.ws₄ := by
  have he := h.eq.symm.trans h'.eq
  rcases List.append_eq_append_iff.1 he with ⟨p, hpre, hstmt⟩ | ⟨p, hpre, hstmt⟩
  · obtain ⟨hab, hbefore, hws⟩ := Mov.stmt_suffix h.valid h'.valid hstmt
    exact ⟨hab, by rw [hbefore, hpre, List.append_assoc], hws⟩
  · obtain ⟨hab, hbefore, hws⟩ := Mov.stmt_suffix h'.valid h.valid hstmt
    exact ⟨hab.symm, by rw [hbefore, hpre, List.append_assoc], hws.symm⟩

theorem matchAt_stmt {rest : Text} (hsemi : ';' ∉ s) (h : matchAt a start (s ++ ';' :: rest) = some m) :
    Ends a start s [] m := by
  obtain ⟨hv, hs, rest', he⟩ := matchAt_sound h
  rw [Mov.text_eq, List.append_assoc, List.singleton_append] at he
  obtain ⟨hstmt, -⟩ := append_cons_first hsemi (Mov.not_semi hv hs a) he
  refine ⟨hv, ?_, hstmt⟩
  rcases hs with hnl | ⟨hnl, hstart⟩
  · exact .inl hnl
  · exact .inr ⟨hnl, hstart, rfl⟩

theorem rewriteGo_skip (a : Axis) (w t : Text) :
    rewriteGo a false w.length (w ++ t) = rewriteGo a false 0 t := by
  induction w with
  | nil => rfl
  | cons c w ih => exact ih

theorem rewriteGo_match (hm : m.Valid) (hs : m.StartsAt start) (rest : Text) :
    rewriteGo a start 0 (m.text a ++ rest) = m.out a ++ rewriteGo a false 0 rest := by
  have hmatch := matchAt_complete hm a hs rest
  cases htext : m.text a with
  | nil => simp [Mov.text] at htext
  | cons c w =>
    rw [htext, List.cons_append] at hmatch
    rw [List.cons_append, rewriteGo, hmatch]
    simp only [htext, List.length_cons, Nat.add_sub_cancel]
    rw [rewriteGo_skip]

theorem rewriteGo_none {c : Char} {t : Text} (h : matchAt a start (c :: t) = none) :
    rewriteGo a start 0 (c :: t) = c :: rewriteGo a false 0 t := by
  rw [rewriteGo, h]

/-- A statement that ends in a recognised read. -/
theorem rewriteGo_mov (hsemi : ';' ∉ s) (h : Ends a start s pre m) (rest : Text) :
    rewriteGo a start 0 (s ++ ';' :: rest) = pre ++ m.out a ++ rewriteGo a false 0 rest := by
  induction pre generalizing start s with
  | nil =>
    have heq := h.eq
    subst heq
    have htext : m.stmt a ++ ';' :: rest = m.text a ++ rest := by
      rw [Mov.text_eq, List.append_assoc, List.singleton_append]
    rw [List.nil_append, List.nil_append, htext, rewriteGo_match h.valid h.startsAt]
  | cons c pre ih =>
    have hnl : m.nl = ['\n'] := by
      rcases h.nl with hnl | ⟨-, -, hpre⟩
      · exact hnl
      · cases hpre
    have heq := h.eq
    subst heq
    have hrest : Ends a false (pre ++ m.stmt a) pre m := ⟨h.valid, .inl hnl, rfl⟩
    have hsemi' : ';' ∉ pre ++ m.stmt a := List.not_mem_of_not_mem_cons hsemi
    have hnone : matchAt a start (c :: (pre ++ m.stmt a ++ ';' :: rest)) = none := by
      cases hmatch : matchAt a start (c :: (pre ++ m.stmt a ++ ';' :: rest)) with
      | none => rfl
      | some m' =>
        have hends := matchAt_stmt hsemi hmatch
        obtain ⟨-, hbefore, -⟩ := Mov.stmt_suffix hends.valid h.valid hends.eq.symm
        have hpre := Mov.nl_suffix hends.valid hends.startsAt hnl
          (Mov.before_suffix hends.valid h.valid hbefore)
        cases hpre
    rw [List.cons_append, List.cons_append, rewriteGo_none hnone, ih hsemi' hrest]
    rfl

/-- Any other statement. -/
theorem rewriteGo_copy (hsemi : ';' ∉ s) (h : ∀ pre m, ¬Ends a start s pre m) (rest : Text) :
    rewriteGo a start 0 (s ++ ';' :: rest) = s ++ ';' :: rewriteGo a false 0 rest := by
  induction s generalizing start with
  | nil =>
    have hnone : matchAt a start (';' :: rest) = none := by
      cases hmatch : matchAt a start (';' :: rest) with
      | none => rfl
      | some m => exact absurd (matchAt_stmt hsemi hmatch) (h [] m)
    exact rewriteGo_none hnone
  | cons c s ih =>
    have hnone : matchAt a start (c :: (s ++ ';' :: rest)) = none := by
      cases hmatch : matchAt a start (c :: (s ++ ';' :: rest)) with
      | none => rfl
      | some m => exact absurd (matchAt_stmt hsemi hmatch) (h [] m)
    have hrest : ∀ pre m, ¬Ends a false s pre m := fun pre m he => h (c :: pre) m he.cons
    rw [List.cons_append, rewriteGo_none hnone, ih (List.not_mem_of_not_mem_cons hsemi) hrest]
    rfl

/-- What follows the last semicolon. -/
theorem rewriteGo_last (hsemi : ';' ∉ s) : rewriteGo a start 0 s = s := by
  induction s generalizing start with
  | nil => rfl
  | cons c s ih =>
    have hnone : matchAt a start (c :: s) = none := by
      cases hmatch : matchAt a start (c :: s) with
      | none => rfl
      | some m =>
        obtain ⟨-, -, rest, he⟩ := matchAt_sound hmatch
        refine absurd ?_ hsemi
        rw [he, Mov.text_eq]
        simp
    rw [rewriteGo_none hnone, ih (List.not_mem_of_not_mem_cons hsemi)]

/-! ## What a rewritten statement becomes -/

/-- The first of the two statements, spelt as the rewriter spells it. -/
def Mov.canon (m : Mov) : Mov := { m with ws₁ := [' '], ws₂ := [], ws₃ := [' '], ws₄ := [] }

/-- The second. -/
def Mov.addStmt (m : Mov) (a : Axis) : Text :=
  ['\n'] ++ m.ind ++ "add.s32 ".toList ++ m.reg ++ ", ".toList ++ m.reg ++ ", ".toList ++ offsetReg a

theorem Mov.out_eq (m : Mov) (a : Axis) :
    m.out a = m.canon.stmt a ++ ';' :: (m.addStmt a ++ [';']) := by
  have h₁ : "mov.u32 ".toList = "mov.u32".toList ++ [' '] := rfl
  have h₂ : ", ".toList = [','] ++ [' '] := rfl
  have h₃ : ";\n".toList = ';' :: ['\n'] := rfl
  simp only [Mov.out, Mov.stmt, Mov.before, Mov.canon, Mov.addStmt, h₁, h₂, h₃, List.append_assoc,
    List.cons_append, List.nil_append]

theorem Mov.Valid.canon (hm : m.Valid) : m.canon.Valid where
  ind := hm.ind
  ws₁ := by simp [Mov.canon, isSpace]
  ws₁_ne := by simp [Mov.canon]
  reg := hm.reg
  ws₂ := by simp [Mov.canon]
  ws₃ := by simp [Mov.canon, isSpace]
  ws₄ := by simp [Mov.canon]

theorem Ends.canon (h : Ends a start s pre m) :
    Ends a start (pre ++ m.canon.stmt a) pre m.canon :=
  ⟨h.valid.canon, h.nl, rfl⟩

theorem Mov.addStmt_not_ends (m : Mov) : ¬Ends b start (m.addStmt a) pre m' := by
  intro h
  have hlit : offsetReg a = '%' :: ("__hb_r".toList ++ [a.char]) := rfl
  have hct : ctaid b = '%' :: ("ctaid.".toList ++ [b.char]) := rfl
  have he : (['\n'] ++ m.ind ++ "add.s32 ".toList ++ m.reg ++ ", ".toList ++ m.reg ++ ", ".toList) ++
      '%' :: ("__hb_r".toList ++ [a.char]) =
      (pre ++ m'.before) ++ '%' :: ("ctaid.".toList ++ b.char :: m'.ws₄) := by
    simpa only [Mov.addStmt, Mov.stmt, hlit, hct, List.append_assoc, List.cons_append,
      List.nil_append] using h.eq
  have hoff : '%' ∉ "__hb_r".toList ++ [a.char] := by cases a <;> decide
  obtain ⟨-, htail⟩ := append_cons_last hoff (not_mem_ctaid_tail h.valid.ws₄) he
  exact absurd (List.head_eq_of_cons_eq htail) (by decide)

theorem Mov.not_mem_addStmt {c : Char} (hm : m.Valid) (hc : Foreign c) (a : Axis) :
    c ∉ m.addStmt a := by
  obtain ⟨name, hreg, -, hname⟩ := hm.reg
  have hind := not_mem_of_all hm.ind hc.1
  have hn := not_mem_of_all hname hc.2.2.1
  have hnl : c ∉ ['\n'] := hc.not_mem rfl
  have hadd : c ∉ "add.s32 ".toList := hc.not_mem rfl
  have hcomma : c ∉ ", ".toList := hc.not_mem rfl
  have hoff : c ∉ offsetReg a := hc.not_mem (by cases a <;> rfl)
  simp only [Mov.addStmt, hreg, List.mem_append, List.mem_cons, not_or]
  exact ⟨⟨⟨⟨⟨⟨⟨by simpa using hnl, hind⟩, hadd⟩, hc.2.2.2.1, hn⟩, hcomma⟩, hc.2.2.2.1, hn⟩, hcomma⟩,
    hoff⟩

/-! ## The three passes -/

/-- The body after the passes for the axes `as`. -/
def rewriteAxes (as : List Axis) (start : Bool) (t : Text) : Text :=
  as.foldl (fun t a => rewriteGo a start 0 t) t

theorem rewriteAxes_last {as : List Axis} (hsemi : ';' ∉ s) : rewriteAxes as start s = s := by
  induction as with
  | nil => rfl
  | cons a as ih =>
    rw [rewriteAxes, List.foldl_cons, rewriteGo_last hsemi]
    exact ih

theorem rewriteAxes_copy {as : List Axis} (hsemi : ';' ∉ s)
    (h : ∀ a ∈ as, ∀ pre m, ¬Ends a start s pre m) (rest : Text) :
    rewriteAxes as start (s ++ ';' :: rest) = s ++ ';' :: rewriteAxes as false rest := by
  induction as generalizing rest with
  | nil => rfl
  | cons a as ih =>
    rw [rewriteAxes, List.foldl_cons, rewriteGo_copy hsemi (h a List.mem_cons_self)]
    exact ih (fun b hb => h b (List.mem_cons_of_mem a hb)) _

/-- A rewritten statement is left alone by the passes for the other axes. -/
theorem rewriteAxes_out {as : List Axis} (hsemi : ';' ∉ s) (h : Ends a start s pre m)
    (ha : a ∉ as) (rest : Text) :
    rewriteAxes as start (pre ++ m.out a ++ rest) = pre ++ m.out a ++ rewriteAxes as false rest := by
  have hsplit : ∀ t : Text, pre ++ m.out a ++ t =
      (pre ++ m.canon.stmt a) ++ ';' :: (m.addStmt a ++ ';' :: t) := by
    intro t
    simp only [Mov.out_eq, List.append_assoc, List.cons_append, List.nil_append]
  have hpre : ';' ∉ pre := by
    rw [h.eq, List.mem_append, not_or] at hsemi
    exact hsemi.1
  have hsemi' : ';' ∉ pre ++ m.canon.stmt a := by
    rw [List.mem_append, not_or]
    exact ⟨hpre, Mov.not_semi h.valid.canon h.canon.startsAt a⟩
  have hother : ∀ b ∈ as, ∀ pre' m', ¬Ends b start (pre ++ m.canon.stmt a) pre' m' := by
    intro b hb pre' m' hends
    obtain ⟨rfl, -, -⟩ := h.canon.unique hends
    exact ha hb
  rw [hsplit, hsplit, rewriteAxes_copy hsemi' hother,
    rewriteAxes_copy (Mov.not_mem_addStmt h.valid (by decide) a) fun _ _ _ _ => Mov.addStmt_not_ends m]

/-- A statement that ends in a recognised read of an axis of the passes. -/
theorem rewriteAxes_mov {as : List Axis} (hnodup : as.Nodup) (hsemi : ';' ∉ s)
    (h : Ends a start s pre m) (ha : a ∈ as) (rest : Text) :
    rewriteAxes as start (s ++ ';' :: rest) = pre ++ m.out a ++ rewriteAxes as false rest := by
  induction as generalizing rest with
  | nil => cases ha
  | cons b as ih =>
    obtain ⟨hb, has⟩ := List.nodup_cons.1 hnodup
    rw [rewriteAxes, List.foldl_cons]
    by_cases hab : a = b
    · subst hab
      rw [rewriteGo_mov hsemi h]
      exact rewriteAxes_out hsemi h hb _
    · have hother : ∀ pre' m', ¬Ends b start s pre' m' := fun pre' m' h' => hab (h.unique h').1
      rw [rewriteGo_copy hsemi hother]
      exact ih has ((List.mem_cons.1 ha).resolve_left hab) _

end Statement

/-! ## A text, statement by statement -/

/-- A text is its first statement and the text behind it, or has no semicolon. -/
theorem stmt_induction {P : Bool → Text → Prop} (last : ∀ start s, ';' ∉ s → P start s)
    (cons : ∀ start s rest, ';' ∉ s → P false rest → P start (s ++ ';' :: rest)) :
    ∀ start t, P start t := by
  intro start t
  induction hn : t.length using Nat.strongRecOn generalizing start t with
  | ind n ih =>
    by_cases hsemi : ';' ∈ t
    · obtain ⟨s, rest, rfl, hs⟩ := List.eq_append_cons_of_mem hsemi
      refine cons start s rest hs (ih rest.length ?_ false rest rfl)
      simp only [List.length_append, List.length_cons] at hn
      omega
    · exact last start t hsemi

end Xsched.HbSplit
