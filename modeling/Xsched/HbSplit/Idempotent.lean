import Xsched.HbSplit.Search
import Xsched.HbSplit.Transform

/-!
# The transform is local, and done once

The parameters go to the end of the parameter list of the entry, the header to
the beginning of its body, and each recognised `mov` is followed by an
addition; all else stays as it is. What is added has no bracket, so the list and
the body are found again, with the parameters in it, and a second transform does
nothing.

**Where this rests on the name.** The entry is searched for by
`.visible .entry ` and the name, and only then by `.entry ` and the name. What is
added must not make a first occurrence for the former. Where the name has no
space, no comma and no newline, as in PTX, it does not
(`transformKernelPtx_local`); for a name that ends in a comma it can
(`transformKernelPtx_again`).
-/
namespace Xsched.HbSplit

open Infix (Skips infix_cut infix_sides skips_of_not_mem skips_of_pairs)

/-! ## The entry and its parameter list -/

def visibleEntry : Text := ".visible .entry ".toList

/-- The text is cut at the end of the name, and at the parentheses of the
parameter list. -/
structure EntryAt (name s u gap params post : Text) : Prop where
  text : s = u ++ (gap ++ '(' :: (params ++ ')' :: post))
  name : findEntryName s name = some u.length
  gap : '(' ∉ gap
  balanced : depthRun '(' ')' 1 params = some 1

section
variable {name s u gap params post : Text}

theorem entryAt_of_find {openParen closeParen : Nat}
    (h : findEntryParamClose s name = some (openParen, closeParen)) :
    ∃ u gap params post, EntryAt name s u gap params post ∧
      openParen = (u ++ gap).length ∧ closeParen = (u ++ gap).length + 1 + params.length := by
  simp only [findEntryParamClose, Option.bind_eq_bind, Option.bind_eq_some_iff, Option.pure_def,
    Option.some_inj, Prod.mk.injEq] at h
  obtain ⟨entryEnd, hname, pos, hpos, close, hclose, rfl, rfl⟩ := h
  obtain ⟨gap, rest, hdrop, hgap, rfl⟩ := findAux_char hpos
  have hlen : (s.take entryEnd).length = entryEnd := by
    have := congrArg List.length hdrop
    rw [List.length_drop, List.length_append, List.length_cons] at this
    rw [List.length_take]
    omega
  rw [← List.drop_drop, hdrop, List.drop_left, findClose, if_pos rfl, Int.zero_add] at hclose
  obtain ⟨params, post, rfl, hbalanced, rfl⟩ := findClose_eq_some hclose
  refine ⟨s.take entryEnd, gap, params, post, ⟨?_, ?_, hgap, hbalanced⟩, ?_, ?_⟩
  · rw [← hdrop, List.take_append_drop]
  · rw [hlen, hname]
  · rw [List.length_append, hlen]
  · rw [List.length_append, hlen]

theorem EntryAt.find (h : EntryAt name s u gap params post) :
    findEntryParamClose s name =
      some ((u ++ gap).length, (u ++ gap).length + 1 + params.length) := by
  have hopen : HbSplit.find ['('] s u.length = some (u ++ gap).length := by
    rw [HbSplit.find, h.text, List.drop_left, findAux_append h.gap, List.length_append]
  have hdrop : s.drop (u ++ gap).length = '(' :: (params ++ ')' :: post) := by
    rw [h.text, ← List.append_assoc, List.drop_left]
  have hclose : findClose '(' ')' ('(' :: (params ++ ')' :: post)) (u ++ gap).length 0 =
      some ((u ++ gap).length + 1 + params.length) := by
    rw [findClose, if_pos rfl, Int.zero_add, findClose_append h.balanced]
    rfl
  simp only [findEntryParamClose, h.name, hopen, hdrop, hclose, Option.bind_eq_bind,
    Option.bind_some, Option.pure_def]

theorem slice_params (head params rest : Text) :
    slice (head ++ '(' :: (params ++ rest)) (head.length + 1) (head.length + 1 + params.length) =
      params := by
  have hdrop : (head ++ '(' :: (params ++ rest)).drop (head.length + 1) = params ++ rest := by
    rw [← List.drop_drop, List.drop_left]
    rfl
  rw [slice, hdrop, Nat.add_sub_cancel_left, List.take_left]

theorem EntryAt.slice_params (h : EntryAt name s u gap params post) :
    slice s ((u ++ gap).length + 1) ((u ++ gap).length + 1 + params.length) = params := by
  rw [h.text, ← List.append_assoc]
  exact HbSplit.slice_params (u ++ gap) params (')' :: post)

/-- The name is found where it was, unless a visible entry comes up. -/
theorem findEntryName_stable {v v' : Text} (h : findEntryName (u ++ v) name = some u.length)
    (hnew : visibleEntry ++ name <:+: u ++ v' → visibleEntry ++ name <:+: u ++ v) :
    findEntryName (u ++ v') name = some u.length := by
  unfold findEntryName at h ⊢
  have hstable : ∀ {needle : Text} {pos : Nat}, HbSplit.find needle (u ++ v) 0 = some pos →
      pos + needle.length = u.length → HbSplit.find needle (u ++ v') 0 = some pos := by
    intro needle pos hfind hlen
    obtain ⟨u₀, v₀, htext, rfl⟩ := find_eq_some hfind
    rw [← List.append_assoc] at htext
    obtain ⟨rfl, rfl⟩ := List.append_inj htext (by rw [List.length_append]; exact hlen.symm)
    rw [List.append_assoc] at hfind ⊢
    exact find_stable hfind
  cases hvisible : HbSplit.find (".visible .entry ".toList ++ name) (u ++ v) 0 with
  | some pos =>
    rw [hvisible] at h
    rw [hstable hvisible (Option.some.inj h)]
    exact h
  | none =>
    have hnone : HbSplit.find (".visible .entry ".toList ++ name) (u ++ v') 0 = none :=
      find_eq_none.2 fun hin => find_eq_none.1 hvisible (hnew hin)
    rw [hvisible] at h
    rw [hnone]
    dsimp only at h ⊢
    cases hentry : HbSplit.find (".entry ".toList ++ name) (u ++ v) 0 with
    | none =>
      rw [hentry] at h
      cases h
    | some pos =>
      rw [hentry] at h
      rw [hstable hentry (Option.some.inj h)]
      exact h

end

/-! ## The added parameters -/

def offsetParams : Text :=
  ".param .u32 __hb_off_x, .param .u32 __hb_off_y, .param .u32 __hb_off_z".toList

/-- What goes behind the parameters: a comma only where there are some. -/
def addedParams (params : Text) : Text :=
  (if params.any fun c => !isSpaceChar c then ", " else " ").toList ++ offsetParams

/-- A name as in PTX has none of these. -/
structure PlainName (name : Text) : Prop where
  space : ' ' ∉ name
  comma : ',' ∉ name
  newline : '\n' ∉ name

section
variable {name s u gap params post : Text}

theorem EntryAt.injected (h : EntryAt name s u gap params post) :
    injectOffsetParams s (u ++ gap).length ((u ++ gap).length + 1 + params.length) =
      u ++ (gap ++ '(' :: (params ++ (addedParams params ++ ')' :: post))) := by
  have hsplit : s = (u ++ (gap ++ '(' :: params)) ++ ')' :: post := by
    rw [h.text]
    simp only [List.append_assoc, List.cons_append]
  have hlen : (u ++ (gap ++ '(' :: params)).length = (u ++ gap).length + 1 + params.length := by
    simp only [List.length_append, List.length_cons]
    omega
  have hinject : ∀ openParen closeParen, injectOffsetParams s openParen closeParen =
      s.take closeParen ++ ((if (slice s (openParen + 1) closeParen).any fun c => !isSpaceChar c
        then ", " else " ").toList ++ offsetParams) ++ s.drop closeParen := by
    intro openParen closeParen
    rw [← List.append_assoc]
    rfl
  have hcut : s.take ((u ++ gap).length + 1 + params.length) = u ++ (gap ++ '(' :: params) ∧
      s.drop ((u ++ gap).length + 1 + params.length) = ')' :: post := by
    rw [← hlen, hsplit, List.take_left, List.drop_left]
    exact ⟨rfl, rfl⟩
  rw [hinject, h.slice_params, hcut.1, hcut.2]
  change u ++ (gap ++ '(' :: params) ++ addedParams params ++ ')' :: post = _
  simp only [List.append_assoc, List.cons_append]

theorem offsetParams_text :
    '(' ∉ offsetParams ∧ ')' ∉ offsetParams ∧ ¬ ['.', 'v'] <:+: ' ' :: offsetParams ∧
      ¬ ['.', 'e'] <:+: ' ' :: offsetParams ∧ (' ' :: offsetParams).getLast? ≠ some '.' ∧
      "__hb_off_x".toList <:+: offsetParams ∧
      "__hb_off_y".toList <:+: offsetParams ∧ "__hb_off_z".toList <:+: offsetParams := by
  decide +kernel

theorem depthRun_added (params : Text) (d : Int) :
    depthRun '(' ')' d (addedParams params) = some d := by
  have hsep : ∀ sep : Text, sep = ", ".toList ∨ sep = " ".toList →
      '(' ∉ sep ++ offsetParams ∧ ')' ∉ sep ++ offsetParams := by
    rintro sep (rfl | rfl)
    · exact ⟨by decide, by decide⟩
    · exact ⟨by decide, by decide⟩
  unfold addedParams
  split
  · exact depthRun_plain d (hsep _ (.inl rfl)).1 (hsep _ (.inl rfl)).2
  · exact depthRun_plain d (hsep _ (.inr rfl)).1 (hsep _ (.inr rfl)).2

/-- The spaces of the needle stand behind a word. -/
theorem visible_split (hname : PlainName name) {n₁ n₂ : Text}
    (h : visibleEntry ++ name = n₁ ++ ' ' :: n₂) :
    n₁ = ".visible".toList ∨ n₁ = ".visible .entry".toList := by
  have h : ".visible".toList ++ ' ' :: (".entry".toList ++ ' ' :: name) = n₁ ++ ' ' :: n₂ := h
  by_cases h₁ : ' ' ∈ n₁
  · obtain ⟨a, b, rfl, ha⟩ := List.eq_append_cons_of_mem h₁
    rw [List.append_assoc, List.cons_append] at h
    obtain ⟨rfl, hrest⟩ := append_cons_first (by decide) ha h
    by_cases h₂ : ' ' ∈ b
    · obtain ⟨a', b', rfl, ha'⟩ := List.eq_append_cons_of_mem h₂
      rw [List.append_assoc, List.cons_append] at hrest
      obtain ⟨-, hname'⟩ := append_cons_first (by decide) ha' hrest
      refine absurd ?_ hname.space
      rw [hname']
      exact List.mem_append_right b' List.mem_cons_self
    · obtain ⟨rfl, -⟩ := append_cons_first (by decide) h₂ hrest
      exact .inr rfl
  · exact .inl (append_cons_first (by decide) h₁ h).1.symm

/-- No word that begins with `.v` or `.e` comes up with the parameters, if it has no
comma and a space in it is behind a letter. -/
theorem of_injected {w n front : Text} {d : Char} (hw : w = '.' :: d :: n)
    (hd : d = 'v' ∨ d = 'e') (hcomma : ',' ∉ w)
    (hspace : ∀ n₁ n₂, w = n₁ ++ ' ' :: n₂ →
      ∃ c ∈ n₁.getLast?, c ≠ '(' ∧ isSpaceChar c = false)
    (h : w <:+: front ++ '(' :: (params ++ (addedParams params ++ ')' :: post))) :
    w <:+: front ++ '(' :: (params ++ ')' :: post) := by
  have hleft : front ++ '(' :: params <:+: front ++ '(' :: (params ++ ')' :: post) :=
    ⟨[], ')' :: post, by simp only [List.nil_append, List.append_assoc, List.cons_append]⟩
  have hright : ')' :: post <:+: front ++ '(' :: (params ++ ')' :: post) :=
    ⟨front ++ '(' :: params, [], by simp only [List.append_nil, List.append_assoc, List.cons_append]⟩
  have hskips : ∀ {z}, w <:+: ' ' :: offsetParams ++ z → w <:+: z := by
    obtain ⟨-, -, hv, he, hlast, -⟩ := offsetParams_text
    rcases hd with rfl | rfl
    · exact hw ▸ skips_of_pairs hv hlast n _
    · exact hw ▸ skips_of_pairs he hlast n _
  unfold addedParams at h
  split at h
  · -- a comma is put in
    have h : w <:+: (front ++ '(' :: params) ++ ',' :: ((' ' :: offsetParams) ++ ')' :: post) := by
      have hsep : ", ".toList = [',', ' '] := rfl
      simpa only [hsep, List.append_assoc, List.cons_append, List.nil_append] using h
    rcases infix_sides hcomma h with h | h
    · exact h.trans hleft
    · exact (hskips h).trans hright
  · next hblank =>
    -- a space is put in, behind a blank or the parenthesis
    have h : w <:+: (front ++ '(' :: params) ++ ' ' :: (offsetParams ++ ')' :: post) := by
      have hsep : " ".toList = [' '] := rfl
      simpa only [hsep, List.append_assoc, List.cons_append, List.nil_append] using h
    rcases infix_cut h with h | h | ⟨n₁, n₂, hn, hsuffix, -⟩
    · exact h.trans hleft
    · exact (hskips (List.infix_cons h)).trans hright
    · exfalso
      obtain ⟨c, hc, hparen, hblankc⟩ := hspace n₁ n₂ hn
      obtain ⟨z, hz⟩ := hsuffix
      have hlast : c ∈ (front ++ '(' :: params).getLast? := by
        rw [← hz, List.getLast?_append]
        rw [Option.mem_def] at hc ⊢
        rw [hc, Option.some_or]
      rw [List.getLast?_append_cons] at hlast
      rcases List.mem_cons.1 (List.mem_of_getLast? hlast) with rfl | hmem
      · exact hparen rfl
      · rw [Bool.not_eq_true, List.any_eq_false] at hblank
        have hsp : isSpaceChar c = true := by simpa using hblank c hmem
        rw [hblankc] at hsp
        cases hsp

/-- No visible entry comes up with the parameters. -/
theorem visible_of_injected (hname : PlainName name) {front : Text}
    (h : visibleEntry ++ name <:+: front ++ '(' :: (params ++ (addedParams params ++ ')' :: post))) :
    visibleEntry ++ name <:+: front ++ '(' :: (params ++ ')' :: post) := by
  refine of_injected (d := 'v') (n := "isible .entry ".toList ++ name) rfl (.inl rfl) ?_ ?_ h
  · rw [List.mem_append, not_or]
    exact ⟨by decide, hname.comma⟩
  · intro n₁ n₂ hn
    rcases visible_split hname hn with rfl | rfl
    · exact ⟨'e', rfl, by decide, by decide⟩
    · exact ⟨'y', rfl, by decide, by decide⟩

end

/-! ## The rewritten body -/

/-- A recognised `mov` becomes one that is spelt with single spaces, and one
instruction behind it; all else is copied. `start` is for a `mov` without a
newline in front. -/
inductive Rewritten : Bool → Text → Text → Prop
  | nil (start : Bool) : Rewritten start [] []
  | copy (start : Bool) (c : Char) {t t' : Text} :
      Rewritten false t t' → Rewritten start (c :: t) (c :: t')
  | mov (start : Bool) (m : Mov) (a : Axis) {t t' : Text} : m.Valid → m.StartsAt start →
      Rewritten false t t' →
      Rewritten start (m.text a ++ t) (m.canon.text a ++ (m.addStmt a ++ ';' :: t'))

section
variable {a : Axis} {start : Bool} {s t t' : Text} {m : Mov}

theorem rewritten_append (s : Text) (h : ∀ start, Rewritten start t t') (start : Bool) :
    Rewritten start (s ++ t) (s ++ t') := by
  induction s generalizing start with
  | nil => exact h start
  | cons c s ih => exact .copy start c (ih false)

theorem Rewritten.copied (h : Rewritten false t t') (hs : s ≠ []) (start : Bool) :
    Rewritten start (s ++ t) (s ++ t') := by
  induction s generalizing start with
  | nil => exact absurd rfl hs
  | cons c s ih =>
    cases s with
    | nil => exact .copy start c h
    | cons d s => exact .copy start c (ih (List.cons_ne_nil d s) false)

theorem rewritten_rewriteAxes {as : List Axis} (hnodup : as.Nodup) (start : Bool) (t : Text) :
    Rewritten start t (rewriteAxes as start t) := by
  induction start, t using stmt_induction with
  | last start s hsemi =>
    rw [rewriteAxes_last hsemi]
    have h := rewritten_append s (fun start => Rewritten.nil start) start
    rwa [List.append_nil] at h
  | cons start s rest hsemi ih =>
    by_cases hends : ∃ b ∈ as, ∃ pre m, Ends b start s pre m
    · obtain ⟨b, hb, pre, m, hends⟩ := hends
      have hin : s ++ ';' :: rest = pre ++ (m.text b ++ rest) := by
        rw [hends.eq, Mov.text_eq]
        simp only [List.append_assoc, List.cons_append, List.nil_append]
      have hout : pre ++ m.out b ++ rewriteAxes as false rest =
          pre ++ (m.canon.text b ++ (m.addStmt b ++ ';' :: rewriteAxes as false rest)) := by
        rw [Mov.out_eq, Mov.text_eq]
        simp only [List.append_assoc, List.cons_append, List.nil_append]
      rw [rewriteAxes_mov hnodup hsemi hends hb, hin, hout]
      cases pre with
      | nil => exact .mov start m b hends.valid hends.startsAt ih
      | cons c pre =>
        have hnl : m.nl = ['\n'] := hends.nl.resolve_right fun h => absurd h.2.2 (List.cons_ne_nil c pre)
        refine Rewritten.copied ?_ (List.cons_ne_nil c pre) start
        exact .mov false m b hends.valid (.inl hnl) ih
    · rw [rewriteAxes_copy hsemi fun b hb pre m he => hends ⟨b, hb, pre, m, he⟩]
      refine rewritten_append s (fun start => .copy start ';' ?_) start
      exact ih

/-- No word that begins with `.v` or `.e` begins in what is put for a `mov`. -/
theorem skips_mov {d : Char} (hd : d = 'v' ∨ d = 'e') (hm : m.Valid) (hs : m.StartsAt start)
    (a : Axis) : Skips '.' d (m.canon.text a ++ (m.addStmt a ++ [';'])) := by
  obtain ⟨name, hreg, -, hname⟩ := hm.reg
  have hplain : ∀ {w : Text}, '.' ∉ w → Skips '.' d w := skips_of_not_mem
  have hind : Skips '.' d m.ind := hplain (not_mem_of_all hm.ind (by decide))
  have hregister : Skips '.' d m.reg := by
    refine hplain ?_
    rw [hreg, List.mem_cons, not_or]
    exact ⟨by decide, not_mem_of_all hname (by decide)⟩
  have hnl : Skips '.' d m.nl := by
    refine hplain ?_
    rcases hs with hnl | ⟨hnl, -⟩
    · rw [hnl]
      decide
    · rw [hnl]
      exact List.not_mem_nil
  have hfixed : ∀ w : Text, ¬ ['.', 'v'] <:+: w → ¬ ['.', 'e'] <:+: w → w.getLast? ≠ some '.' →
      Skips '.' d w := by
    intro w hv he hlast
    rcases hd with rfl | rfl
    · exact skips_of_pairs hv hlast
    · exact skips_of_pairs he hlast
  have hmov : Skips '.' d "mov.u32".toList := hfixed _ (by decide) (by decide) (by decide)
  have hadd : Skips '.' d "add.s32 ".toList := hfixed _ (by decide) (by decide) (by decide)
  have hct : Skips '.' d (ctaid a) := by
    cases a with
    | x => exact hfixed _ (by decide) (by decide) (by decide)
    | y => exact hfixed _ (by decide) (by decide) (by decide)
    | z => exact hfixed _ (by decide) (by decide) (by decide)
  have hoff : Skips '.' d (offsetReg a) := by
    cases a with
    | x => exact hplain (by decide)
    | y => exact hplain (by decide)
    | z => exact hplain (by decide)
  have hcomma : Skips '.' d ", ".toList := hplain (by decide)
  have hspace : ∀ w : Text, w = [' '] ∨ w = [] ∨ w = [','] ∨ w = [';'] ∨ w = ['\n'] →
      Skips '.' d w := by
    rintro w (rfl | rfl | rfl | rfl | rfl)
    · exact hplain (by decide)
    · exact hplain (by decide)
    · exact hplain (by decide)
    · exact hplain (by decide)
    · exact hplain (by decide)
  have hcanon : Skips '.' d (m.canon.text a) := by
    unfold Mov.text Mov.before Mov.canon
    exact (((((((((hnl.append hind).append hmov).append (hspace _ (by simp))).append hregister).append
      (hspace _ (by simp))).append (hspace _ (by simp))).append (hspace _ (by simp))).append hct).append
      (hspace _ (by simp))).append (hspace _ (by simp))
  have haddStmt : Skips '.' d (m.addStmt a) := by
    unfold Mov.addStmt
    exact ((((((((hspace _ (by simp)).append hind).append hadd).append hregister).append hcomma).append
      hregister).append hcomma).append hoff)
  exact hcanon.append (haddStmt.append (hspace _ (by simp)))

/-- No word without a newline that begins with `.v` or `.e` comes up in the body. -/
theorem Rewritten.occurs {n : Text} {d : Char} (hd : d = 'v' ∨ d = 'e')
    (hn : '\n' ∉ '.' :: d :: n) (h : Rewritten start t t') (z : Text) :
    ('.' :: d :: n <:+: t' ++ z → '.' :: d :: n <:+: t ++ z) ∧
      (start = false → ∀ w, '\n' ∉ w → w <+: t' ++ z → w <+: t ++ z) := by
  induction h with
  | nil start => exact ⟨id, fun _ _ _ => id⟩
  | copy start c h ih =>
    obtain ⟨ihin, ihpre⟩ := ih
    constructor
    · intro hin
      rcases List.infix_cons_iff.1 hin with hprefix | hin
      · obtain ⟨hc, hrest⟩ := List.cons_prefix_cons.1 hprefix
        have hrest := ihpre rfl _ (List.not_mem_of_not_mem_cons hn) hrest
        exact (List.cons_prefix_cons.2 ⟨hc, hrest⟩).isInfix
      · exact List.infix_cons (ihin hin)
    · intro _ w hw hprefix
      cases w with
      | nil => exact List.nil_prefix
      | cons c' w =>
        obtain ⟨hc, hrest⟩ := List.cons_prefix_cons.1 hprefix
        exact List.cons_prefix_cons.2 ⟨hc, ihpre rfl w (List.not_mem_of_not_mem_cons hw) hrest⟩
  | @mov start m a t t' hm hs h ih =>
    constructor
    · intro hin
      have hsplit : m.canon.text a ++ (m.addStmt a ++ ';' :: t') ++ z =
          (m.canon.text a ++ (m.addStmt a ++ [';'])) ++ (t' ++ z) := by
        simp only [List.append_assoc, List.cons_append, List.nil_append]
      rw [hsplit] at hin
      rw [List.append_assoc]
      exact List.infix_append_of_infix_right (ih.1 (skips_mov hd hm hs a n _ hin))
    · rintro rfl w hw hprefix
      have hnl : m.nl = ['\n'] := hs.resolve_right fun h => absurd h.2 Bool.false_ne_true
      have hcanon : m.canon.nl = ['\n'] := hnl
      rw [List.append_assoc, Mov.text_append, hcanon] at hprefix
      cases w with
      | nil => exact List.nil_prefix
      | cons c' w =>
        have hc := (List.cons_prefix_cons.1 hprefix).1
        exact absurd (hc ▸ List.mem_cons_self) hw

end

/-! ## The transform -/

/-- The change is one to the parameter list and to the body of the entry, and both
are found in the output where they were. -/
structure LocalChange (name ptx out head params mid body body' post : Text) : Prop where
  input : ptx = head ++ '(' :: (params ++ ')' :: (mid ++ '{' :: (body ++ '}' :: post)))
  output : out = head ++ '(' :: (params ++ addedParams params ++ ')' ::
    (mid ++ '{' :: (offsetHeader ++ body' ++ '}' :: post)))
  inputList : findEntryParamClose ptx name = some (head.length, head.length + 1 + params.length)
  outputList : findEntryParamClose out name =
    some (head.length, head.length + 1 + (params ++ addedParams params).length)
  inputBody : entryBody ptx (head.length + 1 + params.length) = some body
  outputBody : entryBody out (head.length + 1 + (params ++ addedParams params).length) =
    some (offsetHeader ++ body')
  rewritten : Rewritten true body body'

section
variable {ptx name u gap params post : Text}

theorem transformKernelPtx_unmodified (h : (transformKernelPtx ptx name).modified = false) :
    (transformKernelPtx ptx name).ptxText = ptx := by
  unfold transformKernelPtx at h ⊢
  split at h
  · rfl
  split at h
  · next hoffsets => rw [if_pos hoffsets]
  next hoffsets =>
  rw [if_neg hoffsets]
  dsimp only at h ⊢
  split at h
  · rfl
  split at h
  · rfl
  split at h
  · rfl
  split at h
  · next hsync => rw [if_pos hsync]
  · cases h

/-- The entry with the parameters. -/
theorem EntryAt.withParams (hname : PlainName name) (h : EntryAt name ptx u gap params post) :
    EntryAt name (u ++ (gap ++ '(' :: (params ++ addedParams params ++ ')' :: post))) u gap
      (params ++ addedParams params) post where
  text := rfl
  name := by
    refine findEntryName_stable (h.text ▸ h.name) fun hin => ?_
    have hin' : visibleEntry ++ name <:+:
        (u ++ gap) ++ '(' :: (params ++ (addedParams params ++ ')' :: post)) := by
      simpa only [List.append_assoc] using hin
    have hbefore := visible_of_injected hname hin'
    simpa only [List.append_assoc] using hbefore
  gap := h.gap
  balanced := by
    rw [depthRun_append, h.balanced]
    exact depthRun_added params 1

theorem offsetHeader_tail : offsetHeader = '\n' :: offsetHeader.tail ∧
    ¬ ['.', 'v'] <:+: offsetHeader.tail ∧ ¬ ['.', 'e'] <:+: offsetHeader.tail ∧
    offsetHeader.tail.getLast? ≠ some '.' := by
  decide +kernel

/-- No word without a newline that begins with `.v` or `.e` comes up with the header
and the rewritten body. -/
theorem of_rewritten {w n front body body' post : Text} {d : Char} (hw : w = '.' :: d :: n)
    (hd : d = 'v' ∨ d = 'e') (hnewline : '\n' ∉ w) (hrewritten : Rewritten true body body')
    (h : w <:+: front ++ (offsetHeader ++ body' ++ '}' :: post)) :
    w <:+: front ++ (body ++ '}' :: post) := by
  obtain ⟨hheader, hv, he, hlast⟩ := offsetHeader_tail
  have hskips : ∀ {z}, w <:+: offsetHeader.tail ++ z → w <:+: z := by
    rcases hd with rfl | rfl
    · exact hw ▸ skips_of_pairs hv hlast n _
    · exact hw ▸ skips_of_pairs he hlast n _
  -- the word lies before the header or behind it
  have hcut : front ++ (offsetHeader ++ body' ++ '}' :: post) =
      front ++ '\n' :: (offsetHeader.tail ++ (body' ++ '}' :: post)) := by
    conv_lhs => rw [hheader]
    simp only [List.append_assoc, List.cons_append]
  rw [hcut] at h
  rcases infix_sides hnewline h with h | h
  · exact List.infix_append_of_infix_left h
  · have hbody := hskips h
    rw [hw] at hbody hnewline ⊢
    exact List.infix_append_of_infix_right ((hrewritten.occurs hd hnewline ('}' :: post)).1 hbody)

/-- The entry with the header and the rewritten body. -/
theorem EntryAt.withBody (hname : PlainName name) {mid body body' post : Text}
    (hrewritten : Rewritten true body body')
    (h : EntryAt name ptx u gap params (mid ++ '{' :: (body ++ '}' :: post))) :
    EntryAt name
      (u ++ (gap ++ '(' :: (params ++ ')' :: (mid ++ '{' :: (offsetHeader ++ body' ++ '}' :: post)))))
      u gap params (mid ++ '{' :: (offsetHeader ++ body' ++ '}' :: post)) where
  text := rfl
  name := by
    refine findEntryName_stable (h.text ▸ h.name) fun hin => ?_
    have hnewline : '\n' ∉ visibleEntry ++ name := by
      rw [List.mem_append, not_or]
      exact ⟨by decide, hname.newline⟩
    have hjoin : ∀ t : Text, u ++ (gap ++ '(' :: (params ++ ')' :: (mid ++ '{' :: t))) =
        (u ++ (gap ++ '(' :: (params ++ ')' :: (mid ++ ['{'])))) ++ t := by
      intro t
      simp only [List.append_assoc, List.cons_append, List.nil_append]
    rw [hjoin] at hin ⊢
    exact of_rewritten (d := 'v') (n := "isible .entry ".toList ++ name) rfl (.inl rfl) hnewline
      hrewritten hin
  gap := h.gap
  balanced := h.balanced

theorem paramListHasOffsets_added (head params rest : Text) :
    paramListHasOffsets (head ++ '(' :: (params ++ addedParams params ++ rest)) head.length
      (head.length + 1 + (params ++ addedParams params).length) = true := by
  have hin : ∀ {w : Text}, w <:+: offsetParams → w <:+: params ++ addedParams params :=
    fun hw => List.infix_append_of_infix_right (List.infix_append_of_infix_right hw)
  obtain ⟨-, -, -, -, -, hx, hy, hz⟩ := offsetParams_text
  unfold paramListHasOffsets
  rw [slice_params]
  simp only [Bool.and_eq_true, contains_iff]
  exact ⟨⟨hin hx, hin hy⟩, hin hz⟩

/-- What a transform that reports success has done. -/
theorem localChange_of_modified (hname : PlainName name)
    (h : (transformKernelPtx ptx name).modified = true) :
    ∃ head params mid body body' post,
      LocalChange name ptx (transformKernelPtx ptx name).ptxText head params mid body body' post := by
  obtain ⟨s, close, head, gap', body, post, hparams, hlayout, hout⟩ := transform_layout h
  unfold withOffsetParams at hparams
  simp only [Option.bind_eq_bind, Option.bind_eq_some_iff, Option.pure_def, Option.some_inj,
    Prod.mk.injEq, Prod.exists] at hparams
  obtain ⟨openParen, closeParen, hfind, openParen₂, close₂, hfind₂, rfl, rfl⟩ := hparams
  obtain ⟨u, gap, params, rest, hentry, rfl, rfl⟩ := entryAt_of_find hfind
  have hadded := hentry.withParams hname
  have hinjected : injectOffsetParams ptx (u ++ gap).length
      ((u ++ gap).length + 1 + params.length) =
      u ++ (gap ++ '(' :: (params ++ addedParams params ++ ')' :: rest)) := by
    rw [hentry.injected, List.append_assoc params]
  rw [hinjected] at hfind₂ hlayout
  have hclose := hadded.find.symm.trans hfind₂
  rw [Option.some_inj, Prod.mk.injEq] at hclose
  obtain ⟨-, rfl⟩ := hclose
  -- the text behind the parameters is the one behind the closing parenthesis
  have hcut : (u ++ (gap ++ '(' :: (params ++ addedParams params))) ++ ')' :: rest =
      head ++ (gap' ++ '{' :: (body ++ '}' :: post)) := by
    rw [← hlayout.text]
    simp only [List.append_assoc, List.cons_append]
  have hlen : (u ++ (gap ++ '(' :: (params ++ addedParams params))).length = head.length := by
    rw [hlayout.close]
    simp only [List.length_append, List.length_cons]
    omega
  obtain ⟨rfl, hrest⟩ := List.append_inj hcut hlen
  cases gap' with
  | nil => exact absurd (List.head_eq_of_cons_eq hrest) (by decide)
  | cons c mid =>
    rw [List.cons_append, List.cons_eq_cons] at hrest
    obtain ⟨rfl, rfl⟩ := hrest
    have hrewritten := rewritten_rewriteAxes axes_nodup true body
    have hbody := hadded.withBody hname hrewritten
    have hin : Layout ptx ((u ++ gap).length + 1 + params.length) (u ++ gap ++ '(' :: params)
        (')' :: mid) body post := by
      refine ⟨?_, ?_, hlayout.gap, hlayout.balanced⟩
      · rw [hentry.text]
        simp only [List.append_assoc, List.cons_append]
      · simp only [List.length_append, List.length_cons]
        omega
    have hout' : (transformKernelPtx ptx name).ptxText =
        u ++ (gap ++ '(' :: (params ++ addedParams params ++ ')' ::
          (mid ++ '{' :: (offsetHeader ++ rewriteAxes axes true body ++ '}' :: post)))) := by
      rw [hout]
      simp only [List.append_assoc, List.cons_append]
    refine ⟨u ++ gap, params, mid, body, rewriteAxes axes true body, post, ?_, ?_, hentry.find, ?_,
      hin.entryBody, ?_, hrewritten⟩
    · rw [hentry.text, List.append_assoc]
    · rw [hout', ← List.append_assoc u gap]
    · rw [hout']
      exact hbody.find
    · rw [hout]
      exact hlayout.output.entryBody

/-- **Local, and done once.** A transform that reports no change returns its
text. For a name as in PTX, one that reports a change has changed the parameter
list and the body of the entry only, both are found again in the output, and
another transform reports no change and returns its text. -/
theorem transformKernelPtx_local (ptx name : Text) :
    ((transformKernelPtx ptx name).modified = false →
      (transformKernelPtx ptx name).ptxText = ptx) ∧
    (PlainName name → (transformKernelPtx ptx name).modified = true →
      (∃ head params mid body body' post, LocalChange name ptx (transformKernelPtx ptx name).ptxText
        head params mid body body' post) ∧
      (transformKernelPtx (transformKernelPtx ptx name).ptxText name).modified = false ∧
      (transformKernelPtx (transformKernelPtx ptx name).ptxText name).ptxText =
        (transformKernelPtx ptx name).ptxText) := by
  refine ⟨transformKernelPtx_unmodified, fun hname h => ?_⟩
  have hlocal := localChange_of_modified hname h
  refine ⟨hlocal, ?_⟩
  obtain ⟨head, params, mid, body, body', post, hlocal⟩ := hlocal
  generalize (transformKernelPtx ptx name).ptxText = out at hlocal
  have hoffsets : paramListHasOffsets out head.length
      (head.length + 1 + (params ++ addedParams params).length) = true := by
    rw [hlocal.output]
    exact paramListHasOffsets_added head params _
  have hagain : transformKernelPtx out name =
      { ptxText := out, diagnostic := "ALREADY_TRANSFORMED" } := by
    unfold transformKernelPtx
    rw [hlocal.outputList]
    exact if_pos hoffsets
  rw [hagain]
  exact ⟨rfl, rfl⟩

end

/-! ## Names with a comma, and spaces -/

theorem transformKernelPtx_local_one :
    (transformKernelPtx (transformKernelPtx oneRead ['k']).ptxText ['k']).modified = false :=
  ((transformKernelPtx_local oneRead ['k']).2 ⟨by decide, by decide, by decide⟩
    (by decide +kernel)).2.1

/-- With the separating comma, the first parameter list has the needle of `k,`. -/
def commaName : Text := ".entry k,(.visible .entry k)\x7b\x7d()\x7b\x7d".toList

/-- A `mov` with a tab and without spaces. -/
def tabMov : Text := ".entry k()\x7bmov.u32\t%r1,%ctaid.x;\x7d".toList

/-- The transform is done twice, once in each body, and a `mov` loses its tab. -/
theorem transformKernelPtx_again :
    ((transformKernelPtx commaName "k,".toList).modified = true ∧
      (transformKernelPtx (transformKernelPtx commaName "k,".toList).ptxText "k,".toList).modified =
        true) ∧
    ((transformKernelPtx tabMov ['k']).modified = true ∧
      ∃ body, inputBody tabMov ['k'] = some body ∧ ¬ body.Sublist (rewriteAxes axes true body)) := by
  refine ⟨by decide +kernel, by decide +kernel, "mov.u32\t%r1,%ctaid.x;".toList, by decide +kernel,
    by decide +kernel⟩

end Xsched.HbSplit
