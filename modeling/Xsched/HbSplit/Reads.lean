import Xsched.HbSplit.Rewrite

/-!
# Reads of the block index

An instruction of the body reads the block index of axis `a` where the text has
`%ctaid.a` outside of comments and strings (`Lex`). The rewriter recognises a
read that is the operand of a `mov.u32` at the start of a line and ends its
statement (`Recognized`); behind such a read it puts the addition of the offset
(`Adjusted`). It leaves any other read as it is.

`adjusted_iff_recognized` is the law of the three passes: every read of the
rewritten text is adjusted exactly if every read of the text was recognised.
-/
namespace Xsched.HbSplit

/-! ## Comments and strings -/

/-- Where a scan of a PTX text is: `slash` and `star` have seen the first
character of a pair that opens or closes a comment. -/
inductive Lex
  | code | slash | line | block | star | str
deriving DecidableEq, Repr

namespace Lex

def step : Lex → Char → Lex
  | code, c => if c = '/' then slash else if c = '"' then str else code
  | slash, c => if c = '/' then line else if c = '*' then block else if c = '"' then str else code
  | line, c => if c = '\n' then code else line
  | block, c => if c = '*' then star else block
  | star, c => if c = '/' then code else if c = '*' then star else block
  | str, c => if c = '"' then code else str

def run (l : Lex) (t : Text) : Lex := t.foldl step l

def isCode : Lex → Bool
  | code | slash => true
  | _ => false

@[simp] theorem run_nil (l : Lex) : l.run [] = l := rfl

@[simp] theorem run_cons (l : Lex) (c : Char) (t : Text) : l.run (c :: t) = (l.step c).run t := rfl

@[simp] theorem run_append (l : Lex) (t u : Text) : l.run (t ++ u) = (l.run t).run u :=
  List.foldl_append

/-- No character that opens or closes a comment or a string. -/
def Quiet (t : Text) : Prop := '/' ∉ t ∧ '*' ∉ t ∧ '"' ∉ t

/-- Between a newline and the next such character a scan stays where it is. -/
theorem run_quiet {l : Lex} {t : Text} (ht : Quiet t) (hl : l = code ∨ l = block ∨ l = str) :
    l.run t = l := by
  induction t with
  | nil => rfl
  | cons c t ih =>
    obtain ⟨h₁, h₂, h₃⟩ := ht
    rw [List.mem_cons, not_or] at h₁ h₂ h₃
    have hstep : l.step c = l := by
      rcases hl with rfl | rfl | rfl
      · rw [step, if_neg (Ne.symm h₁.1), if_neg (Ne.symm h₃.1)]
      · rw [step, if_neg (Ne.symm h₂.1)]
      · rw [step, if_neg (Ne.symm h₃.1)]
    rw [run_cons, hstep]
    exact ih ⟨h₁.2, h₂.2, h₃.2⟩

theorem step_newline (l : Lex) :
    l.step '\n' = code ∨ l.step '\n' = block ∨ l.step '\n' = str := by
  cases l <;> decide

theorem run_newline (l : Lex) {t : Text} (ht : Quiet ('\n' :: t)) :
    l.run ('\n' :: t) = l.step '\n' := by
  obtain ⟨h₁, h₂, h₃⟩ := ht
  exact run_quiet ⟨List.not_mem_of_not_mem_cons h₁, List.not_mem_of_not_mem_cons h₂,
    List.not_mem_of_not_mem_cons h₃⟩ l.step_newline

end Lex

theorem Mov.quiet {m : Mov} {start : Bool} (hm : m.Valid) (hs : m.StartsAt start) (a : Axis) :
    Lex.Quiet (m.stmt a) :=
  ⟨Mov.not_mem_stmt hm hs (by decide) a, Mov.not_mem_stmt hm hs (by decide) a,
    Mov.not_mem_stmt hm hs (by decide) a⟩

/-- Behind a statement and behind what replaces it, a scan is at the same place. -/
theorem Ends.run_out {a : Axis} {start : Bool} {s pre : Text} {m : Mov} (h : Ends a start s pre m)
    {l : Lex} (hl : start = true → l = .code) :
    l.run (pre ++ m.out a) = l.run (s ++ [';']) := by
  have hquiet : Lex.Quiet (m.stmt a ++ [';']) ∧ Lex.Quiet (m.out a) := by
    obtain ⟨h₁, h₂, h₃⟩ := Mov.quiet h.valid h.startsAt a
    obtain ⟨h₄, h₅, h₆⟩ := Mov.quiet h.valid.canon h.canon.startsAt a
    have h₇ := Mov.not_mem_addStmt (c := '/') h.valid (by decide) a
    have h₈ := Mov.not_mem_addStmt (c := '*') h.valid (by decide) a
    have h₉ := Mov.not_mem_addStmt (c := '"') h.valid (by decide) a
    simp only [Lex.Quiet, Mov.out_eq, List.mem_append, List.mem_cons, not_or]
    exact ⟨⟨⟨h₁, by decide⟩, ⟨h₂, by decide⟩, ⟨h₃, by decide⟩⟩, ⟨h₄, by decide, h₇, by decide⟩,
      ⟨h₅, by decide, h₈, by decide⟩, ⟨h₆, by decide, h₉, by decide⟩⟩
  rw [h.eq, List.append_assoc, Lex.run_append, Lex.run_append]
  rcases h.nl with hnl | ⟨hnl, hstart, hpre⟩
  · have hcons : ∀ t : Text, m.nl ++ t = '\n' :: t := by
      intro t
      rw [hnl]
      rfl
    have hstmt : m.stmt a ++ [';'] = '\n' :: (m.tail a []) := by
      rw [← hcons, ← Mov.text_append, Mov.text_eq, List.append_nil]
    have hout : m.out a = '\n' :: (m.canon.tail a (m.addStmt a ++ [';'])) := by
      have hcanon : m.out a = m.canon.text a ++ (m.addStmt a ++ [';']) := by
        rw [Mov.out_eq, Mov.text_eq, List.append_assoc, List.singleton_append]
      rw [hcanon, Mov.text_append]
      exact hcons _
    rw [hstmt] at hquiet ⊢
    rw [hout] at hquiet ⊢
    rw [Lex.run_newline _ hquiet.1, Lex.run_newline _ hquiet.2]
  · rw [hl hstart, hpre, Lex.run_nil, Lex.run_quiet hquiet.1 (.inl rfl),
      Lex.run_quiet hquiet.2 (.inl rfl)]

/-! ## Where a read can be -/

section Places

variable {a b : Axis} {start : Bool} {s pre q u v : Text} {m : Mov}

theorem Mov.count_dot (hm : m.Valid) (hs : m.StartsAt start) (b : Axis) :
    (m.stmt b).count '.' = 2 := by
  obtain ⟨name, hreg, -, hname⟩ := hm.reg
  have hspace : ∀ {w : Text}, (∀ d ∈ w, isSpace d = true) → w.count '.' = 0 := fun hw =>
    List.count_eq_zero_of_not_mem (not_mem_of_all hw (by decide))
  have hind : m.ind.count '.' = 0 :=
    List.count_eq_zero_of_not_mem (not_mem_of_all hm.ind (by decide))
  have hn : name.count '.' = 0 :=
    List.count_eq_zero_of_not_mem (not_mem_of_all hname (by decide))
  have hnl : m.nl.count '.' = 0 := by
    rcases hs with h | ⟨h, -⟩ <;> rw [h] <;> rfl
  have hmov : "mov.u32".toList.count '.' = 1 := by decide
  have hcomma : [','].count '.' = 0 := by decide
  have hct : (ctaid b).count '.' = 1 := by cases b <;> decide
  have hreg' : m.reg.count '.' = 0 := by
    rw [hreg, List.count_cons, hn]
    rfl
  simp only [Mov.stmt, Mov.before, List.count_append, hnl, hind, hmov, hspace hm.ws₁, hreg',
    hspace hm.ws₂, hcomma, hspace hm.ws₃, hct, hspace hm.ws₄]

/-- The only read in a recognised `mov` is its operand. -/
theorem Mov.stmt_read (hm : m.Valid) (hs : m.StartsAt start) (h : m.stmt b = q ++ ctaid a ++ v) :
    q = m.before ∧ a = b ∧ v = m.ws₄ := by
  have hlit : ∀ c : Axis, ctaid c = "%ctaid".toList ++ '.' :: [c.char] := fun c => rfl
  by_cases hdot : '.' ∈ v
  · -- then its dot is the first one, which is that of the opcode
    have hcount := Mov.count_dot hm hs b
    have hv : 0 < v.count '.' := List.count_pos_iff.2 hdot
    have hct : (ctaid a).count '.' = 1 := by cases a <;> decide
    rw [h, List.count_append, List.count_append, hct] at hcount
    have hq : '.' ∉ q := List.count_eq_zero.1 (by omega)
    have hnl : '.' ∉ m.nl ++ m.ind ++ "mo".toList ++ ['v'] := by
      simp only [List.mem_append, not_or]
      refine ⟨⟨⟨?_, not_mem_of_all hm.ind (by decide)⟩, by decide⟩, by decide⟩
      rcases hs with h | ⟨h, -⟩ <;> rw [h] <;> decide
    have he : (q ++ "%ctai".toList ++ ['d']) ++ '.' :: (a.char :: v) =
        (m.nl ++ m.ind ++ "mo".toList ++ ['v']) ++ '.' :: ("u32".toList ++ (m.ws₁ ++ (m.reg ++
          (m.ws₂ ++ ([','] ++ (m.ws₃ ++ (ctaid b ++ m.ws₄))))))) := by
      have h₁ : "%ctaid".toList = "%ctai".toList ++ ['d'] := rfl
      have h₂ : "mov.u32".toList = "mo".toList ++ ['v'] ++ '.' :: "u32".toList := rfl
      rw [Mov.stmt, Mov.before, hlit a, h₁, h₂] at h
      simpa only [List.append_assoc, List.cons_append, List.nil_append] using h.symm
    have hq' : '.' ∉ q ++ "%ctai".toList ++ ['d'] := by
      simp only [List.mem_append, not_or]
      exact ⟨⟨hq, by decide⟩, by decide⟩
    obtain ⟨hleft, -⟩ := append_cons_first hq' hnl he
    obtain ⟨-, hlast⟩ := List.append_inj' hleft rfl
    exact absurd hlast (by decide)
  · have hchar : ∀ c : Axis, '.' ≠ c.char := by
      intro c
      cases c <;> decide
    have hws : '.' ∉ b.char :: m.ws₄ := by
      rw [List.mem_cons, not_or]
      exact ⟨hchar b, not_mem_of_all hm.ws₄ (by decide)⟩
    have hv : '.' ∉ a.char :: v := by
      rw [List.mem_cons, not_or]
      exact ⟨hchar a, hdot⟩
    have he : (m.before ++ "%ctaid".toList) ++ '.' :: (b.char :: m.ws₄) =
        (q ++ "%ctaid".toList) ++ '.' :: (a.char :: v) := by
      rw [Mov.stmt, hlit a, hlit b] at h
      simpa only [List.append_assoc, List.cons_append, List.nil_append] using h
    obtain ⟨hleft, hright⟩ := append_cons_last hws hv he
    rw [List.cons_eq_cons] at hright
    exact ⟨(List.append_cancel_right hleft).symm, (Axis.char_inj hright.1).symm, hright.2.symm⟩

theorem newline_not_mem_ctaid (a : Axis) : '\n' ∉ ctaid a := by cases a <;> decide

theorem semi_not_mem_ctaid (a : Axis) : ';' ∉ ctaid a := by cases a <;> decide

/-- A read in a text that a separator cuts is on one side of it. -/
theorem read_sides {c : Char} (hc : c ∉ ctaid a) {l r : Text}
    (h : l ++ c :: r = u ++ ctaid a ++ v) :
    (∃ w, l = u ++ ctaid a ++ w ∧ v = w ++ c :: r) ∨
      ∃ w, u = l ++ c :: w ∧ r = w ++ ctaid a ++ v := by
  rcases List.append_eq_append_iff.1 h with ⟨p, hu, hr⟩ | ⟨p, hl, hv⟩
  · cases p with
    | nil =>
      rw [List.append_nil] at hu
      exact .inl ⟨[], by rw [List.append_nil, hu], hr.symm⟩
    | cons d p =>
      rw [List.cons_append, List.cons_eq_cons] at hr
      obtain ⟨rfl, rfl⟩ := hr
      rcases List.append_eq_append_iff.1 hu.symm with ⟨q, hu', hq⟩ | ⟨q, -, hq⟩
      · cases q with
        | nil =>
          rw [List.nil_append] at hq
          exact absurd (hq ▸ List.mem_cons_self) hc
        | cons d q =>
          rw [List.cons_append, List.cons_eq_cons] at hq
          obtain ⟨rfl, rfl⟩ := hq
          exact .inr ⟨q, hu', rfl⟩
      · rw [hq] at hc
        exact absurd (List.mem_append_right q List.mem_cons_self) hc
  · exact .inl ⟨p, hl, hv⟩

/-- The reads of a statement that ends in a recognised read: that one, and those
before it. -/
theorem Ends.reads (h : Ends b start s pre m) (hs : s = u ++ ctaid a ++ v) :
    (∃ w, pre = u ++ ctaid a ++ w ∧ v = w ++ m.stmt b) ∨
      a = b ∧ u = pre ++ m.before ∧ v = m.ws₄ := by
  have heq := h.eq.symm.trans hs
  cases hpre : pre with
  | nil =>
    rw [hpre, List.nil_append] at heq
    obtain ⟨hu, hab, hv⟩ := Mov.stmt_read h.valid h.startsAt heq
    exact .inr ⟨hab, hu, hv⟩
  | cons c pre' =>
    -- a line of its own: the newline separates the two
    have hnl : m.nl = ['\n'] := by
      rcases h.nl with hnl | ⟨-, -, hnil⟩
      · exact hnl
      · rw [hpre] at hnil
        cases hnil
    have hstmt : m.stmt b = '\n' :: (m.stmt b).tail := by
      simp only [Mov.stmt, Mov.before, hnl, List.append_assoc, List.cons_append, List.nil_append,
        List.tail_cons]
    rw [hstmt] at heq
    rw [← hpre]
    rcases read_sides (newline_not_mem_ctaid a) heq with ⟨w, hw, hv⟩ | ⟨w, hu, htail⟩
    · exact .inl ⟨w, hw, by rw [hv, ← hstmt]⟩
    · have hread : m.stmt b = ('\n' :: w) ++ ctaid a ++ v := by
        rw [hstmt, htail]
        rfl
      obtain ⟨hw, hab, hv⟩ := Mov.stmt_read h.valid h.startsAt hread
      exact .inr ⟨hab, by rw [hu, hw], hv⟩

/-- The added statement reads no block index. -/
theorem Mov.addStmt_read (hm : m.Valid) : m.addStmt b ≠ u ++ ctaid a ++ v := by
  intro h
  obtain ⟨name, hreg, -, hname⟩ := hm.reg
  have hn := not_mem_of_all (c := '.') hname (by decide)
  have hoff : '.' ∉ offsetReg b := by cases b <;> decide
  have hleft : '.' ∉ ['\n'] ++ m.ind ++ "ad".toList ++ ['d'] := by
    simp only [List.mem_append, not_or]
    exact ⟨⟨⟨by decide, not_mem_of_all hm.ind (by decide)⟩, by decide⟩, by decide⟩
  have hright : '.' ∉ "s32 ".toList ++ m.reg ++ ", ".toList ++ m.reg ++ ", ".toList ++ offsetReg b := by
    simp only [hreg, List.mem_append, List.mem_cons, not_or]
    exact ⟨⟨⟨⟨⟨by decide, by decide, hn⟩, by decide⟩, by decide, hn⟩, by decide⟩, hoff⟩
  have he : (u ++ "%ctai".toList ++ ['d']) ++ '.' :: (a.char :: v) =
      (['\n'] ++ m.ind ++ "ad".toList ++ ['d']) ++ '.' ::
        ("s32 ".toList ++ m.reg ++ ", ".toList ++ m.reg ++ ", ".toList ++ offsetReg b) := by
    have h₁ : ctaid a = "%ctai".toList ++ ['d'] ++ '.' :: [a.char] := rfl
    have h₂ : "add.s32 ".toList = "ad".toList ++ ['d'] ++ '.' :: "s32 ".toList := rfl
    rw [Mov.addStmt, h₁, h₂] at h
    simpa only [List.append_assoc, List.cons_append, List.nil_append] using h.symm
  obtain ⟨hleft', -, -⟩ := (List.append_cons_inj_of_notMem hleft hright).1 he.symm
  have hd := List.append_cancel_right hleft'
  have hd' : (['\n'] ++ m.ind ++ ['a']) ++ ['d'] = (u ++ "%cta".toList) ++ ['i'] := by
    have h₁ : "ad".toList = ['a'] ++ ['d'] := rfl
    have h₂ : "%ctai".toList = "%cta".toList ++ ['i'] := rfl
    rw [h₁, h₂] at hd
    simpa only [List.append_assoc] using hd
  obtain ⟨-, hlast⟩ := List.append_inj' hd' rfl
  exact absurd hlast (by decide)

end Places

/-! ## Recognised and adjusted reads -/

/-- `P` holds of every read of axis `a`, of the text before it and the text
behind it. The scan of `t` begins in state `l`. -/
def AllReads (P : Text → Text → Prop) (a : Axis) (l : Lex) (t : Text) : Prop :=
  ∀ u v, t = u ++ ctaid a ++ v → (l.run u).isCode = true → P u v

/-- The read is the operand of a `mov.u32` that begins its line. `start` says that
`u` goes back to the start of the body. -/
def Recognized (start : Bool) (u v : Text) : Prop :=
  ∃ pre m post, Mov.Valid m ∧ (m.nl = ['\n'] ∨ m.nl = [] ∧ start = true ∧ pre = []) ∧
    u = pre ++ m.before ∧ v = m.ws₄ ++ ';' :: post

/-- The next line adds the register of the offset to the destination of the
read. -/
def Adjusted (a : Axis) (start : Bool) (u v : Text) : Prop :=
  ∃ pre m post, Mov.Valid m ∧ (m.nl = ['\n'] ∨ m.nl = [] ∧ start = true ∧ pre = []) ∧
    u = pre ++ (m.nl ++ m.ind ++ "mov.u32 ".toList ++ m.reg ++ ", ".toList) ∧
    v = ";\n".toList ++ m.ind ++ "add.s32 ".toList ++ m.reg ++ ", ".toList ++ m.reg ++
      ", ".toList ++ offsetReg a ++ ';' :: post

section Laws

variable {a b : Axis} {start : Bool} {l : Lex} {s pre u v t rest : Text} {m : Mov}
  {P Q : Text → Text → Prop}

theorem adjusted_iff : Adjusted a start u v ↔
    ∃ pre m post, Mov.Valid m ∧ (m.nl = ['\n'] ∨ m.nl = [] ∧ start = true ∧ pre = []) ∧
      u = pre ++ m.canon.before ∧ v = ';' :: (m.addStmt a ++ ';' :: post) := by
  have h₁ : ∀ m : Mov, m.nl ++ m.ind ++ "mov.u32 ".toList ++ m.reg ++ ", ".toList =
      m.canon.before := by
    intro m
    have h₁ : "mov.u32 ".toList = "mov.u32".toList ++ [' '] := rfl
    have h₂ : ", ".toList = [','] ++ [' '] := rfl
    simp only [Mov.before, Mov.canon, h₁, h₂, List.append_assoc, List.nil_append]
  have h₂ : ∀ (m : Mov) (post : Text), ";\n".toList ++ m.ind ++ "add.s32 ".toList ++ m.reg ++
      ", ".toList ++ m.reg ++ ", ".toList ++ offsetReg a ++ ';' :: post =
      ';' :: (m.addStmt a ++ ';' :: post) := by
    intro m post
    have h₃ : ";\n".toList = ';' :: ['\n'] := rfl
    simp only [Mov.addStmt, h₃, List.append_assoc, List.cons_append]
  simp only [Adjusted, h₁, h₂]

theorem AllReads.congr (h : ∀ u v, P u v ↔ Q u v) : AllReads P a l t ↔ AllReads Q a l t := by
  simp only [AllReads, h]

/-- The reads of the first statement, and those of the text behind it. -/
theorem allReads_append : AllReads P a l (s ++ ';' :: rest) ↔
    AllReads (fun u v => P u (v ++ ';' :: rest)) a l s ∧
      AllReads (fun u v => P (s ++ ';' :: u) v) a (l.run (s ++ [';'])) rest := by
  constructor
  · intro h
    refine ⟨fun u v hs hcode => ?_, fun u v hrest hcode => ?_⟩
    · exact h u (v ++ ';' :: rest) (by rw [hs, List.append_assoc]) hcode
    · refine h (s ++ ';' :: u) v ?_ ?_
      · rw [hrest]
        simp only [List.append_assoc, List.cons_append]
      · simpa using hcode
  · rintro ⟨hs, hrest⟩ u v h hcode
    rcases read_sides (semi_not_mem_ctaid a) h with ⟨w, hl, rfl⟩ | ⟨w, rfl, hr⟩
    · exact hs u w hl hcode
    · exact hrest w v hr (by simpa using hcode)

/-- What stands before a recognised `mov` does not go beyond the last semicolon. -/
theorem before_shift {m : Mov} (hm : m.Valid)
    (hnl : m.nl = ['\n'] ∨ m.nl = [] ∧ start = true ∧ pre = [])
    (h : s ++ ';' :: u = pre ++ m.before) : m.nl = ['\n'] ∧ ∃ pre', u = pre' ++ m.before := by
  have hsemi : ';' ∉ m.before := by
    have hs : m.StartsAt true := hnl.imp id fun h => ⟨h.1, rfl⟩
    have hstmt := Mov.not_semi hm hs .x
    simp only [Mov.stmt, List.mem_append, not_or] at hstmt
    exact hstmt.1.1
  have hcons : (s ++ [';']) ++ u = pre ++ m.before := by
    rw [← h, List.append_assoc, List.singleton_append]
  rcases List.append_eq_append_iff.1 hcons with ⟨p, hpre, hu⟩ | ⟨p, hs, hbefore⟩
  · refine ⟨?_, p, hu⟩
    rcases hnl with hnl | ⟨-, -, hnil⟩
    · exact hnl
    · rw [hnil] at hpre
      simp at hpre
  · rcases List.eq_nil_or_concat p with rfl | ⟨p, c, rfl⟩
    · rw [List.append_nil] at hs
      refine ⟨?_, [], hbefore.symm⟩
      rcases hnl with hnl | ⟨-, -, hnil⟩
      · exact hnl
      · rw [hnil] at hs
        simp at hs
    · have hlast : s ++ [';'] = (pre ++ p) ++ [c] := by
        rw [hs, List.concat_eq_append, List.append_assoc]
      obtain ⟨-, hc⟩ := List.append_inj' hlast rfl
      rw [List.cons_eq_cons] at hc
      refine absurd ?_ hsemi
      rw [hbefore, ← hc.1, List.concat_eq_append]
      simp

theorem recognized_shift : Recognized start (s ++ ';' :: u) v ↔ Recognized false u v := by
  constructor
  · rintro ⟨pre, m, post, hm, hnl, hu, hv⟩
    obtain ⟨hnl', pre', hu'⟩ := before_shift hm hnl hu
    exact ⟨pre', m, post, hm, .inl hnl', hu', hv⟩
  · rintro ⟨pre, m, post, hm, hnl, rfl, hv⟩
    refine ⟨s ++ ';' :: pre, m, post, hm, ?_, by rw [List.append_assoc, List.cons_append], hv⟩
    rcases hnl with hnl | ⟨-, hfalse, -⟩
    · exact .inl hnl
    · cases hfalse

theorem adjusted_shift : Adjusted a start (s ++ ';' :: u) v ↔ Adjusted a false u v := by
  rw [adjusted_iff, adjusted_iff]
  constructor
  · rintro ⟨pre, m, post, hm, hnl, hu, hv⟩
    obtain ⟨hnl', pre', hu'⟩ := before_shift hm.canon hnl hu
    exact ⟨pre', m, post, hm, .inl hnl', hu', hv⟩
  · rintro ⟨pre, m, post, hm, hnl, rfl, hv⟩
    refine ⟨s ++ ';' :: pre, m, post, hm, ?_, by rw [List.append_assoc, List.cons_append], hv⟩
    rcases hnl with hnl | ⟨-, hfalse, -⟩
    · exact .inl hnl
    · cases hfalse

/-! ## The law of one statement -/

/-- No read of axis `a` in code. -/
def NoRead (a : Axis) (l : Lex) (t : Text) : Prop := AllReads (fun _ _ => False) a l t

/-- A text that ends where a read could only begin. -/
theorem not_adjusted_of_tail {w : Text} (hw : ';' ∉ w) (hne : w ≠ []) :
    ¬Adjusted a start u (w ++ v) := by
  rw [adjusted_iff]
  rintro ⟨pre, m, post, -, -, -, hv⟩
  cases w with
  | nil => exact hne rfl
  | cons c w =>
    rw [List.cons_append, List.cons_eq_cons] at hv
    rw [hv.1] at hw
    exact hw List.mem_cons_self

/-- Before a recognised `mov` nothing is recognised. -/
theorem recognized_ends (hsemi : ';' ∉ s) (h : Ends b start s pre m) :
    AllReads (fun u v => Recognized start u (v ++ ';' :: rest)) a l s ↔ NoRead a l pre := by
  constructor
  · rintro hall u w hpre hcode
    have hs : s = u ++ ctaid a ++ (w ++ m.stmt b) := by
      rw [h.eq, hpre, List.append_assoc]
    obtain ⟨pre', m', post, hm', hnl', hu, hv⟩ := hall u _ hs hcode
    have hws : ';' ∉ w ++ m.stmt b := by
      rw [hs, List.mem_append, not_or] at hsemi
      exact hsemi.2
    obtain ⟨hv', -⟩ := append_cons_first hws (not_mem_of_all hm'.ws₄ (by decide)) hv
    have h' : Ends a start s pre' m' := ⟨hm', hnl', by
      rw [hs, hu, hv']
      simp only [Mov.stmt, List.append_assoc]⟩
    -- two recognised reads in one statement would be one
    obtain ⟨-, hbefore, -⟩ := h.unique h'
    have hlen := congrArg List.length hpre
    rw [← hu] at hbefore
    have hlen' := congrArg List.length hbefore
    simp only [List.length_append] at hlen hlen'
    have hct : (ctaid a).length = 8 := rfl
    omega
  · rintro hno u v hs hcode
    rcases h.reads hs with ⟨w, hpre, -⟩ | ⟨hab, hu, hv⟩
    · exact (hno u w hpre hcode).elim
    · exact ⟨pre, m, rest, h.valid, h.nl, hu, by rw [hv]⟩

theorem recognized_copy (hsemi : ';' ∉ s) (h : ∀ pre m, ¬Ends a start s pre m) :
    AllReads (fun u v => Recognized start u (v ++ ';' :: rest)) a l s ↔ NoRead a l s := by
  constructor
  · rintro hall u v hs hcode
    obtain ⟨pre', m', post, hm', hnl', hu, hv⟩ := hall u v hs hcode
    have hv' : ';' ∉ v := by
      rw [hs, List.mem_append, not_or] at hsemi
      exact hsemi.2
    obtain ⟨hv', -⟩ := append_cons_first hv' (not_mem_of_all hm'.ws₄ (by decide)) hv
    exact h pre' m' ⟨hm', hnl', by
      rw [hs, hu, hv']
      simp only [Mov.stmt, List.append_assoc]⟩
  · intro hno u v hs hcode
    exact (hno u v hs hcode).elim

theorem adjusted_copy (hsemi : ';' ∉ s) (h : ∀ pre m, ¬Ends a start s pre m) :
    AllReads (fun u v => Adjusted a start u (v ++ ';' :: rest)) a l s ↔ NoRead a l s := by
  constructor
  · rintro hall u v hs hcode
    have hadj := hall u v hs hcode
    have hv : ';' ∉ v := by
      rw [hs, List.mem_append, not_or] at hsemi
      exact hsemi.2
    by_cases hnil : v = []
    · obtain ⟨pre', m', post, hm', hnl', hu, -⟩ := adjusted_iff.1 hadj
      refine h pre' m'.canon ⟨hm'.canon, hnl', ?_⟩
      rw [hs, hu, hnil]
      simp only [Mov.stmt, Mov.canon, List.append_assoc]
    · exact not_adjusted_of_tail hv hnil hadj
  · intro hno u v hs hcode
    exact (hno u v hs hcode).elim

theorem adjusted_out (hsemi : ';' ∉ s) (h : Ends b start s pre m) :
    AllReads (Adjusted a start) a l (pre ++ m.out b ++ rest) ↔
      NoRead a l pre ∧ AllReads (Adjusted a false) a (l.run (pre ++ m.out b)) rest := by
  have hsplit : pre ++ m.out b ++ rest =
      (pre ++ m.canon.stmt b) ++ ';' :: (m.addStmt b ++ ';' :: rest) := by
    simp only [Mov.out_eq, List.append_assoc, List.cons_append, List.nil_append]
  have hrun : ((l.run (pre ++ m.canon.stmt b ++ [';'])).run (m.addStmt b ++ [';'])) =
      l.run (pre ++ m.out b) := by
    simp only [Mov.out_eq, Lex.run_append, Lex.run_cons, Lex.run_nil]
  rw [hsplit, allReads_append]
  refine and_congr ?_ ?_
  · have hcanon := Mov.not_semi h.valid.canon h.canon.startsAt b
    constructor
    · rintro hall u w hpre hcode
      have hadj := hall u (w ++ m.canon.stmt b) (by rw [hpre, List.append_assoc]) hcode
      have hw : ';' ∉ w := by
        rw [h.eq, hpre, List.mem_append, List.mem_append, not_or, not_or] at hsemi
        exact hsemi.1.2
      refine not_adjusted_of_tail ?_ ?_ hadj
      · rw [List.mem_append, not_or]
        exact ⟨hw, hcanon⟩
      · simp [Mov.stmt, Mov.before]
    · intro hno u v hs hcode
      rcases h.canon.reads hs with ⟨w, hpre, -⟩ | ⟨rfl, hu, hv⟩
      · exact (hno u w hpre hcode).elim
      · exact adjusted_iff.2 ⟨pre, m, rest, h.valid, h.nl, hu, by rw [hv]; rfl⟩
  · rw [AllReads.congr (fun u v => adjusted_shift), allReads_append, hrun,
      AllReads.congr (Q := Adjusted a false) (fun u v => adjusted_shift)]
    refine and_iff_right fun u v hadd => ?_
    exact absurd hadd (Mov.addStmt_read h.valid)

theorem recognized_last (hsemi : ';' ∉ t) : AllReads (Recognized start) a l t ↔ NoRead a l t := by
  constructor
  · rintro hall u v ht hcode
    obtain ⟨-, m, post, -, -, -, hv⟩ := hall u v ht hcode
    refine hsemi ?_
    rw [ht, hv]
    simp
  · intro hno u v ht hcode
    exact (hno u v ht hcode).elim

theorem adjusted_last (hsemi : ';' ∉ t) : AllReads (Adjusted a start) a l t ↔ NoRead a l t := by
  constructor
  · rintro hall u v ht hcode
    obtain ⟨-, m, post, -, -, -, hv⟩ := adjusted_iff.1 (hall u v ht hcode)
    refine hsemi ?_
    rw [ht, hv]
    simp
  · intro hno u v ht hcode
    exact (hno u v ht hcode).elim

/-- The law of the passes: they adjust every read exactly if they recognise
every read. -/
theorem adjusted_iff_recognized {as : List Axis} (hnodup : as.Nodup) (ha : a ∈ as) (start : Bool)
    (t : Text) : ∀ l, (start = true → l = .code) →
      (AllReads (Adjusted a start) a l (rewriteAxes as start t) ↔
        AllReads (Recognized start) a l t) := by
  induction start, t using stmt_induction with
  | last start t hsemi =>
    intro l hl
    rw [rewriteAxes_last hsemi, recognized_last hsemi, adjusted_last hsemi]
  | cons start s rest hsemi ih =>
    intro l hl
    have hrest := fun l' => ih l' fun h => by cases h
    rw [allReads_append (P := Recognized start),
      AllReads.congr (Q := Recognized false) (fun u v => recognized_shift)]
    by_cases hends : ∃ b ∈ as, ∃ pre m, Ends b start s pre m
    · obtain ⟨b, hb, pre, m, hends⟩ := hends
      rw [rewriteAxes_mov hnodup hsemi hends hb, adjusted_out hsemi hends,
        recognized_ends hsemi hends, hends.run_out hl, hrest]
    · have hcopy : ∀ b ∈ as, ∀ pre m, ¬Ends b start s pre m := fun b hb pre m he =>
        hends ⟨b, hb, pre, m, he⟩
      rw [rewriteAxes_copy hsemi hcopy, allReads_append (P := Adjusted a start),
        AllReads.congr (Q := Adjusted a false) (fun u v => adjusted_shift),
        adjusted_copy hsemi (hcopy a ha), recognized_copy hsemi (hcopy a ha), hrest]

end Laws

end Xsched.HbSplit
