import Xsched.HbSplit.Reads

/-!
# The transformed entry

The parameters are added in front of the body, so the body keeps its place, and
neither the header nor a rewritten `mov` has a brace, so it keeps its end: the
body of the entry in the output is the header and the rewritten body
(`outputBody_eq`).

**Every read or none.** The capability of an axis is set by one recognised read,
while a kernel may read the block index in other ways too. A body with both is
reported as transformed for that axis, and its other reads see the index of the
child launch (`transformKernelPtx_leaves_read`).
-/
namespace Xsched.HbSplit

/-! ## Brackets -/

section Brackets

variable {op cl : Char}

/-- The depth behind a text in which the scan for the closing bracket does not
stop. -/
def depthRun (op cl : Char) : Int → Text → Option Int
  | d, [] => some d
  | d, c :: t =>
    if c = op then depthRun op cl (d + 1) t
    else if c = cl then
      if d - 1 = 0 then none else depthRun op cl (d - 1) t
    else depthRun op cl d t

theorem depthRun_append (d : Int) (t u : Text) :
    depthRun op cl d (t ++ u) = (depthRun op cl d t).bind fun d' => depthRun op cl d' u := by
  induction t generalizing d with
  | nil => rfl
  | cons c t ih =>
    simp only [List.cons_append, depthRun]
    split
    · exact ih _
    split
    · split
      · rfl
      · exact ih _
    · exact ih _

theorem depthRun_plain (d : Int) {t : Text} (ho : op ∉ t) (hc : cl ∉ t) :
    depthRun op cl d t = some d := by
  induction t with
  | nil => rfl
  | cons c t ih =>
    rw [List.mem_cons, not_or] at ho hc
    rw [depthRun, if_neg (Ne.symm ho.1), if_neg (Ne.symm hc.1)]
    exact ih ho.2 hc.2

theorem findClose_append {t : Text} {d d' : Int} (h : depthRun op cl d t = some d') (u : Text)
    (i : Nat) : findClose op cl (t ++ u) i d = findClose op cl u (i + t.length) d' := by
  induction t generalizing d i with
  | nil =>
    cases h
    rfl
  | cons c t ih =>
    have hlen : i + (c :: t).length = i + 1 + t.length := by
      rw [List.length_cons]
      omega
    rw [depthRun] at h
    rw [List.cons_append, findClose, hlen]
    split at h
    · next hc => rw [if_pos hc, ih h]
    next hc =>
    rw [if_neg hc]
    split at h
    · next hc' =>
      rw [if_pos hc']
      split at h
      · cases h
      next hd => rw [if_neg hd, ih h]
    next hc' => rw [if_neg hc', ih h]

theorem findClose_eq_some {t : Text} {i j : Nat} {d : Int}
    (h : findClose op cl t i d = some j) :
    ∃ body post, t = body ++ cl :: post ∧ depthRun op cl d body = some 1 ∧ j = i + body.length := by
  induction t generalizing d i with
  | nil => cases h
  | cons c t ih =>
    rw [findClose] at h
    split at h
    · next hc =>
      obtain ⟨body, post, rfl, hd, rfl⟩ := ih h
      refine ⟨c :: body, post, rfl, by rw [depthRun, if_pos hc, hd], ?_⟩
      rw [List.length_cons]
      omega
    next hc =>
    split at h
    · next hc' =>
      split at h
      · next hd =>
        cases h
        exact ⟨[], t, by rw [hc']; rfl, by rw [depthRun]; exact congrArg some (by omega), rfl⟩
      next hd =>
      obtain ⟨body, post, rfl, hd', rfl⟩ := ih h
      refine ⟨c :: body, post, rfl, by rw [depthRun, if_neg hc, if_pos hc', if_neg hd, hd'], ?_⟩
      rw [List.length_cons]
      omega
    next hc' =>
    obtain ⟨body, post, rfl, hd', rfl⟩ := ih h
    refine ⟨c :: body, post, rfl, by rw [depthRun, if_neg hc, if_neg hc', hd'], ?_⟩
    rw [List.length_cons]
    omega

end Brackets

/-! ## The body of an entry -/

theorem findAux_char {c : Char} {t : Text} {i j : Nat} (h : findAux [c] t i = some j) :
    ∃ pre post, t = pre ++ c :: post ∧ c ∉ pre ∧ j = i + pre.length := by
  induction t generalizing i with
  | nil => cases h
  | cons d t ih =>
    rw [findAux] at h
    split at h
    · next hd =>
      cases h
      have hcd : c = d := by simpa [List.isPrefixOf] using hd
      exact ⟨[], t, by rw [hcd]; rfl, List.not_mem_nil, rfl⟩
    · next hd =>
      obtain ⟨pre, post, rfl, hpre, rfl⟩ := ih h
      have hcd : c ≠ d := by simpa [List.isPrefixOf] using hd
      refine ⟨d :: pre, post, rfl, ?_, ?_⟩
      · rw [List.mem_cons, not_or]
        exact ⟨hcd, hpre⟩
      · rw [List.length_cons]
        omega

theorem findAux_append {c : Char} {pre : Text} (h : c ∉ pre) (post : Text) (i : Nat) :
    findAux [c] (pre ++ c :: post) i = some (i + pre.length) := by
  induction pre generalizing i with
  | nil =>
    rw [List.nil_append, findAux, if_pos (by simp [List.isPrefixOf])]
    rfl
  | cons d pre ih =>
    rw [List.mem_cons, not_or] at h
    rw [List.cons_append, findAux, if_neg (by simpa [List.isPrefixOf] using h.1), ih h.2,
      List.length_cons]
    congr 1
    omega

/-- The text between the braces that follow the parameter list. -/
def entryBody (s : Text) (close : Nat) : Option Text := do
  let bodyOpen ← find ['{'] s close
  let bodyClose ← findClosingBrace s bodyOpen
  pure (slice s (bodyOpen + 1) bodyClose)

/-- A text cut at the parameter list, the opening brace and the closing brace. -/
structure Layout (s : Text) (close : Nat) (head gap body post : Text) : Prop where
  text : s = head ++ (gap ++ '{' :: (body ++ '}' :: post))
  close : head.length = close
  gap : '{' ∉ gap
  balanced : depthRun '{' '}' 1 body = some 1

section Layout

variable {s head gap body post : Text} {close : Nat}

theorem Layout.find (h : Layout s close head gap body post) :
    find ['{'] s close = some (close + gap.length) := by
  rw [HbSplit.find, h.text, ← h.close, List.drop_left, findAux_append h.gap]

theorem Layout.drop (h : Layout s close head gap body post) :
    s.drop (close + gap.length) = '{' :: (body ++ '}' :: post) := by
  rw [h.text, ← h.close, ← List.append_assoc, ← List.length_append, List.drop_left]

theorem Layout.closingBrace (h : Layout s close head gap body post) :
    findClosingBrace s (close + gap.length) = some (close + gap.length + 1 + body.length) := by
  rw [findClosingBrace, h.drop, findClose, if_pos rfl, Int.zero_add, findClose_append h.balanced]
  rfl

theorem Layout.dropBody (h : Layout s close head gap body post) :
    s.drop (close + gap.length + 1) = body ++ '}' :: post := by
  rw [← List.drop_drop, h.drop]
  rfl

theorem Layout.slice (h : Layout s close head gap body post) :
    slice s (close + gap.length + 1) (close + gap.length + 1 + body.length) = body := by
  rw [HbSplit.slice, h.dropBody, Nat.add_sub_cancel_left, List.take_left]

theorem Layout.entryBody (h : Layout s close head gap body post) :
    entryBody s close = some body := by
  simp only [HbSplit.entryBody, h.find, h.closingBrace, Option.bind_eq_bind, Option.bind_some,
    h.slice, Option.pure_def]

/-- What stands before and behind the body. -/
theorem Layout.around (h : Layout s close head gap body post) :
    s.take (close + gap.length + 1) = head ++ (gap ++ ['{']) ∧
      s.drop (close + gap.length + 1 + body.length) = '}' :: post := by
  constructor
  · have hs : s = (head ++ (gap ++ ['{'])) ++ (body ++ '}' :: post) := by
      rw [h.text]
      simp only [List.append_assoc, List.singleton_append]
    have hlen : close + gap.length + 1 = (head ++ (gap ++ ['{'])).length := by
      rw [List.length_append, List.length_append, h.close]
      rfl
    rw [hlen, hs, List.take_left]
  · rw [← List.drop_drop, h.dropBody, List.drop_left]

theorem layout_of_find {bodyOpen bodyClose : Nat} (h : HbSplit.find ['{'] s close = some bodyOpen)
    (hc : findClosingBrace s bodyOpen = some bodyClose) :
    ∃ head gap body post, Layout s close head gap body post := by
  obtain ⟨gap, t, hdrop, hgap, rfl⟩ := findAux_char h
  have hs : s = s.take close ++ (gap ++ '{' :: t) := by
    rw [← hdrop, List.take_append_drop]
  have hlen : (s.take close).length = close := by
    have := congrArg List.length hdrop
    rw [List.length_drop, List.length_append, List.length_cons] at this
    rw [List.length_take]
    omega
  have hbrace : s.drop (close + gap.length) = '{' :: t := by
    rw [← List.drop_drop, hdrop, List.drop_left]
  rw [findClosingBrace, hbrace, findClose, if_pos rfl, Int.zero_add] at hc
  obtain ⟨body, post, rfl, hd, -⟩ := findClose_eq_some hc
  exact ⟨s.take close, gap, body, post, hs, hlen, hgap, hd⟩

end Layout

/-! ## Braces and the rewriter -/

theorem depthRun_ends {a : Axis} {start : Bool} {s pre : Text} {m : Mov} (h : Ends a start s pre m)
    (d : Int) : depthRun '{' '}' d (pre ++ m.out a) = depthRun '{' '}' d (s ++ [';']) := by
  have hplain : ∀ {c : Char}, Foreign c → c ≠ ';' → c ∉ m.stmt a ++ [';'] ∧ c ∉ m.out a := by
    intro c hc hsemi
    have h₁ := Mov.not_mem_stmt h.valid h.startsAt hc a
    have h₂ := Mov.not_mem_stmt h.valid.canon h.canon.startsAt hc a
    have h₃ := Mov.not_mem_addStmt h.valid hc a
    simp only [Mov.out_eq, List.mem_append, List.mem_cons, List.not_mem_nil, or_false, not_or]
    exact ⟨⟨h₁, hsemi⟩, h₂, hsemi, h₃, hsemi⟩
  obtain ⟨ho, ho'⟩ := hplain (c := '{') (by decide) (by decide)
  obtain ⟨hc, hc'⟩ := hplain (c := '}') (by decide) (by decide)
  rw [h.eq, List.append_assoc, depthRun_append, depthRun_append]
  cases depthRun '{' '}' d pre with
  | none => rfl
  | some d' =>
    rw [Option.bind_some, Option.bind_some, depthRun_plain d' ho hc, depthRun_plain d' ho' hc']

theorem depthRun_rewriteAxes {as : List Axis} (hnodup : as.Nodup) (start : Bool) (t : Text) :
    ∀ d, depthRun '{' '}' d (rewriteAxes as start t) = depthRun '{' '}' d t := by
  induction start, t using stmt_induction with
  | last start t hsemi =>
    intro d
    rw [rewriteAxes_last hsemi]
  | cons start s rest hsemi ih =>
    intro d
    have hcons : s ++ ';' :: rest = (s ++ [';']) ++ rest := by
      rw [List.append_assoc, List.singleton_append]
    by_cases hends : ∃ b ∈ as, ∃ pre m, Ends b start s pre m
    · obtain ⟨b, hb, pre, m, hends⟩ := hends
      rw [rewriteAxes_mov hnodup hsemi hends hb, hcons, depthRun_append d (pre ++ m.out b),
        depthRun_append d (s ++ [';']), depthRun_ends hends]
      simp only [ih]
    · have hcopy : ∀ b ∈ as, ∀ pre m, ¬Ends b start s pre m := fun b hb pre m he =>
        hends ⟨b, hb, pre, m, he⟩
      have hcons' : s ++ ';' :: rewriteAxes as false rest =
          (s ++ [';']) ++ rewriteAxes as false rest := by
        rw [List.append_assoc, List.singleton_append]
      rw [rewriteAxes_copy hsemi hcopy, hcons', hcons, depthRun_append d (s ++ [';']),
        depthRun_append d (s ++ [';'])]
      simp only [ih]

/-! ## The result -/

/-- The text with the parameters added, and where the parameter list ends. -/
def withOffsetParams (ptx kernelName : Text) : Option (Text × Nat) := do
  let (openParen, closeParen) ← findEntryParamClose ptx kernelName
  let withParams := injectOffsetParams ptx openParen closeParen
  let (_, close₂) ← findEntryParamClose withParams kernelName
  pure (withParams, close₂)

/-- The body of the entry before the rewriting. -/
def inputBody (ptx kernelName : Text) : Option Text := do
  let (withParams, close) ← withOffsetParams ptx kernelName
  entryBody withParams close

/-- The body of the entry in the output text. -/
def outputBody (ptx kernelName : Text) : Option Text := do
  let (_, close) ← withOffsetParams ptx kernelName
  entryBody (transformKernelPtx ptx kernelName).ptxText close

/-- The passes of `TransformKernelPtx`. -/
def axes : List Axis := [.x, .y, .z]

theorem axes_nodup : axes.Nodup := by decide

theorem mem_axes (a : Axis) : a ∈ axes := by cases a <;> decide

/-- The header has no brace, ends with a statement and a newline, is read as
code and reads no block index. -/
theorem offsetHeader_text :
    '{' ∉ offsetHeader ∧ '}' ∉ offsetHeader ∧
      offsetHeader = offsetHeader.dropLast ++ ['\n'] ∧
      offsetHeader = offsetHeader.dropLast.dropLast ++ ';' :: ['\n'] ∧
      Lex.code.run offsetHeader = .code ∧
      ∀ a ∈ axes, ¬ctaid a <:+: offsetHeader.dropLast := by
  decide +kernel

section Result

variable {ptx kernelName : Text}

/-- What a transform that reports success has done. -/
theorem transform_layout (h : (transformKernelPtx ptx kernelName).modified = true) :
    ∃ s close head gap body post, withOffsetParams ptx kernelName = some (s, close) ∧
      Layout s close head gap body post ∧
      (transformKernelPtx ptx kernelName).ptxText =
        head ++ (gap ++ '{' :: (offsetHeader ++ rewriteAxes axes true body ++ '}' :: post)) := by
  unfold transformKernelPtx at h ⊢
  unfold withOffsetParams
  split at h
  · cases h
  next openParen closeParen hopen =>
  rw [hopen]
  split at h
  · cases h
  next hoffsets =>
  simp only [hoffsets, if_false, Bool.false_eq_true]
  simp only at h
  split at h
  · cases h
  next open₂ close₂ hopen₂ =>
  split at h
  · cases h
  next bodyOpen hbody =>
  split at h
  · cases h
  next bodyClose hclose =>
  split at h
  · cases h
  next hsync =>
  obtain ⟨head, gap, body, post, hlayout⟩ := layout_of_find hbody hclose
  have hbodyOpen := hlayout.find.symm.trans hbody
  cases hbodyOpen
  have hbodyClose := hlayout.closingBrace.symm.trans hclose
  cases hbodyClose
  refine ⟨_, close₂, head, gap, body, post, ?_, hlayout, ?_⟩
  · simp only [Option.bind_eq_bind, Option.bind_some, hopen₂, Option.pure_def]
  · rw [hlayout.slice] at hsync
    simp only [hlayout.slice, hlayout.around.1, hlayout.around.2, if_neg hsync, List.append_assoc,
      List.cons_append, List.nil_append]
    rfl

theorem Layout.output {s head gap body post : Text} {close : Nat}
    (h : Layout s close head gap body post) :
    Layout (head ++ (gap ++ '{' :: (offsetHeader ++ rewriteAxes axes true body ++ '}' :: post)))
      close head gap (offsetHeader ++ rewriteAxes axes true body) post where
  text := rfl
  close := h.close
  gap := h.gap
  balanced := by
    have hheader : depthRun '{' '}' 1 offsetHeader = some 1 :=
      depthRun_plain 1 offsetHeader_text.1 offsetHeader_text.2.1
    rw [depthRun_append, hheader, Option.bind_some, depthRun_rewriteAxes axes_nodup]
    exact h.balanced

/-- The body of the entry in the output: the header and the rewritten body. -/
theorem outputBody_eq (h : (transformKernelPtx ptx kernelName).modified = true) :
    ∃ body, inputBody ptx kernelName = some body ∧
      outputBody ptx kernelName = some (offsetHeader ++ rewriteAxes axes true body) := by
  obtain ⟨s, close, head, gap, body, post, hparams, hlayout, htext⟩ := transform_layout h
  refine ⟨body, ?_, ?_⟩
  · simp only [inputBody, hparams, Option.bind_eq_bind, Option.bind_some, hlayout.entryBody]
  · simp only [outputBody, hparams, Option.bind_eq_bind, Option.bind_some, htext,
      hlayout.output.entryBody]

end Result

/-! ## The header -/

theorem offsetHeader_eq : offsetHeader = offsetHeader.dropLast ++ ['\n'] :=
  offsetHeader_text.2.2.1

theorem offsetHeader_semi :
    offsetHeader = offsetHeader.dropLast.dropLast ++ ';' :: ['\n'] :=
  offsetHeader_text.2.2.2.1

theorem run_offsetHeader : Lex.code.run offsetHeader = .code := offsetHeader_text.2.2.2.2.1

theorem offsetHeader_no_read {a : Axis} {u w : Text} : offsetHeader.dropLast ≠ u ++ ctaid a ++ w := by
  intro h
  exact offsetHeader_text.2.2.2.2.2 a (mem_axes a) ⟨u, w, h.symm⟩

/-- The header is followed by the body as a newline is followed by its line. -/
theorem adjusted_header {a : Axis} {u v : Text} :
    Adjusted a true (offsetHeader ++ u) v ↔ Adjusted a true u v := by
  have hcons : offsetHeader ++ u = offsetHeader.dropLast.dropLast ++ ';' :: ('\n' :: u) := by
    conv_lhs => rw [offsetHeader_semi]
    rw [List.append_assoc]
    rfl
  rw [hcons, adjusted_shift]
  constructor
  · rintro ⟨pre, m, post, hm, hnl, hu, hv⟩
    rcases hnl with hnl | ⟨-, hfalse, -⟩
    · cases pre with
      | nil =>
        refine ⟨[], { m with nl := [] }, post, ?_, .inr ⟨rfl, rfl, rfl⟩, ?_, hv⟩
        · exact ⟨hm.ind, hm.ws₁, hm.ws₁_ne, hm.reg, hm.ws₂, hm.ws₃, hm.ws₄⟩
        · simpa [hnl] using hu
      | cons c pre =>
        rw [List.cons_append, List.cons_eq_cons] at hu
        exact ⟨pre, m, post, hm, .inl hnl, hu.2, hv⟩
    · cases hfalse
  · rintro ⟨pre, m, post, hm, hnl, rfl, hv⟩
    rcases hnl with hnl | ⟨hnl, -, hpre⟩
    · exact ⟨'\n' :: pre, m, post, hm, .inl hnl, by rw [List.cons_append], hv⟩
    · refine ⟨[], { m with nl := ['\n'] }, post, ?_, .inl rfl, ?_, hv⟩
      · exact ⟨hm.ind, hm.ws₁, hm.ws₁_ne, hm.reg, hm.ws₂, hm.ws₃, hm.ws₄⟩
      · rw [hnl, hpre]
        rfl

theorem allReads_header {a : Axis} {t : Text} :
    AllReads (Adjusted a true) a .code (offsetHeader ++ t) ↔
      AllReads (Adjusted a true) a .code t := by
  constructor
  · intro h u v ht hcode
    refine adjusted_header.1 (h (offsetHeader ++ u) v ?_ ?_)
    · rw [ht]
      simp only [List.append_assoc]
    · rw [Lex.run_append, run_offsetHeader]
      exact hcode
  · intro h u v ht hcode
    have hline : offsetHeader.dropLast ++ '\n' :: t = u ++ ctaid a ++ v := by
      rw [← ht]
      conv_rhs => rw [offsetHeader_eq]
      rw [List.append_assoc]
      rfl
    rcases read_sides (newline_not_mem_ctaid a) hline with ⟨w, hw, -⟩ | ⟨w, hu, hw⟩
    · exact absurd hw offsetHeader_no_read
    · have hu' : u = offsetHeader ++ w := by
        rw [hu]
        conv_rhs => rw [offsetHeader_eq]
        rw [List.append_assoc]
        rfl
      rw [hu', Lex.run_append, run_offsetHeader] at hcode
      rw [hu']
      exact adjusted_header.2 (h w v hw hcode)

/-! ## Which reads are recognised -/

/-- Whether the expression of axis `a` has a match whose `%ctaid` is at `p`. -/
def recognizedAt (a : Axis) (body : Text) (p : Nat) : Bool :=
  (List.range (p + 1)).any fun i =>
    match matchAt a (i == 0) (body.drop i) with
    | some m => i + m.before.length == p
    | none => false

theorem recognizedAt_iff {a : Axis} {u v : Text} :
    recognizedAt a (u ++ ctaid a ++ v) u.length = true ↔ Recognized true u v := by
  rw [recognizedAt, List.any_eq_true]
  constructor
  · rintro ⟨i, hi, h⟩
    split at h
    · next m hmatch =>
      obtain ⟨hm, hs, rest, htext⟩ := matchAt_sound hmatch
      have hlen : i + m.before.length = u.length := by simpa using h
      have hpos : 0 < (m.text a ++ rest).length := by
        rw [Mov.text]
        simp only [List.length_append, List.length_cons]
        omega
      rw [← htext, List.length_drop] at hpos
      -- the text up to the read, cut at the start of the match
      have hcut : (u ++ ctaid a ++ v).take i ++ m.before = u ∧
          ctaid a ++ m.ws₄ ++ ';' :: rest = ctaid a ++ v := by
        have he : ((u ++ ctaid a ++ v).take i ++ m.before) ++ (ctaid a ++ m.ws₄ ++ ';' :: rest) =
            u ++ (ctaid a ++ v) := by
          have h₁ : m.before ++ (ctaid a ++ m.ws₄ ++ ';' :: rest) = m.text a ++ rest := by
            simp only [Mov.text, List.append_assoc, List.singleton_append]
          rw [List.append_assoc, h₁, ← htext, List.take_append_drop, List.append_assoc]
        refine List.append_inj he ?_
        rw [List.length_append, List.length_take]
        omega
      refine ⟨_, m, rest, hm, ?_, hcut.1.symm, ?_⟩
      · rcases hs with hnl | ⟨hnl, hstart⟩
        · exact .inl hnl
        · have hzero : i = 0 := by simpa using hstart
          exact .inr ⟨hnl, rfl, by rw [hzero, List.take_zero]⟩
      · have hv := hcut.2
        rw [List.append_assoc] at hv
        exact (List.append_cancel_left hv).symm
    · cases h
  · rintro ⟨pre, m, post, hm, hnl, rfl, rfl⟩
    refine ⟨pre.length, List.mem_range.2 ?_, ?_⟩
    · rw [List.length_append]
      omega
    · have hdrop : (pre ++ m.before ++ ctaid a ++ (m.ws₄ ++ ';' :: post)).drop pre.length =
          m.text a ++ post := by
        simp only [Mov.text, List.append_assoc, List.singleton_append, List.drop_left]
      have hs : m.StartsAt (pre.length == 0) := by
        rcases hnl with hnl | ⟨hnl, -, hpre⟩
        · exact .inl hnl
        · exact .inr ⟨hnl, by rw [hpre]; rfl⟩
      rw [hdrop, matchAt_complete hm a hs]
      simp

/-! ## The reads of a transformed entry -/

/-- **Every read or none.** For every text and entry that `TransformKernelPtx`
reports as transformed, and every axis: each read of the block index in the
body of the entry in the output is followed by the addition of its offset if
and only if each read in the body of the entry in the input is the operand of a
`mov.u32` that begins its line. -/
theorem transformKernelPtx_adjusts_iff (ptx kernelName : Text) (a : Axis)
    (h : (transformKernelPtx ptx kernelName).modified = true) :
    ∃ body body', inputBody ptx kernelName = some body ∧ outputBody ptx kernelName = some body' ∧
      (AllReads (Adjusted a true) a .code body' ↔ AllReads (Recognized true) a .code body) := by
  obtain ⟨body, hin, hout⟩ := outputBody_eq h
  refine ⟨body, _, hin, hout, ?_⟩
  rw [allReads_header]
  exact adjusted_iff_recognized axes_nodup (mem_axes a) true body .code fun _ => rfl

/-- A kernel that reads the block index twice, into a register and into a wider
one. -/
def twoReads : Text :=
  (".visible .entry k(.param .u64 out)\n\x7b\n\tmov.u32 %r1, %ctaid.x;\n" ++
    "\tcvt.u64.u32 %rd1, %ctaid.x;\n\tret;\n\x7d\n").toList

/-- The same with the second read from the register. -/
def oneRead : Text :=
  (".visible .entry k(.param .u64 out)\n\x7b\n\tmov.u32 %r1, %ctaid.x;\n" ++
    "\tcvt.u64.u32 %rd1, %r1;\n\tret;\n\x7d\n").toList

theorem transformKernelPtx_adjusts_one :
    ∃ body body', inputBody oneRead ['k'] = some body ∧ outputBody oneRead ['k'] = some body' ∧
      (AllReads (Adjusted .x true) .x .code body' ↔ AllReads (Recognized true) .x .code body) :=
  transformKernelPtx_adjusts_iff oneRead ['k'] .x (by decide +kernel)

/-- The axis is reported as supported, and one of its reads is left alone. -/
theorem transformKernelPtx_leaves_read :
    ¬∀ (ptx kernelName : Text) (a : Axis), (transformKernelPtx ptx kernelName).modified = true →
      (transformKernelPtx ptx kernelName).supportsOffset a = true →
      ∀ body', outputBody ptx kernelName = some body' →
        AllReads (Adjusted a true) a .code body' := by
  intro h
  have hrun : (transformKernelPtx twoReads ['k']).modified = true ∧
      (transformKernelPtx twoReads ['k']).supportsOffset .x = true := by decide +kernel
  obtain ⟨body, hin, hout⟩ := outputBody_eq hrun.1
  have hadj := h twoReads ['k'] .x hrun.1 hrun.2 _ hout
  rw [allReads_header, adjusted_iff_recognized axes_nodup (mem_axes _) true body .code
    fun _ => rfl] at hadj
  have hbody : inputBody twoReads ['k'] = some ("\n\tmov.u32 %r1, %ctaid.x;\n".toList ++
      "\tcvt.u64.u32 %rd1, ".toList ++ ctaid .x ++ ";\n\tret;\n".toList) := by decide +kernel
  cases hin.symm.trans hbody
  have hrec := hadj _ _ rfl (by decide +kernel)
  exact absurd ((recognizedAt_iff (a := .x)).2 hrec) (by decide +kernel)

end Xsched.HbSplit
