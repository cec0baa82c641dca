import Xsched.HbSplit.Entries
import Xsched.HbSplit.Idempotent
import Xsched.HbSplit.Registry

/-!
# What is done to an entry

An entry has a parameter list, the first parentheses behind its name, and a body,
the first braces behind the list, if they are closed before the next `.entry `
(`Entry.paramList`). The functions that take a text and a name search from the
end of the name to the end of the text.

**Result**
* `resolves_iff`: for an entry's own name they work on its own list and body
  (`Resolves`), if and only if its name finds it, and where it has no list, or no
  body, there is none behind it either (`Apart`).
-/
namespace Xsched.HbSplit

open Registry (countParamsForKernel)

/-! ## The first group of brackets -/

/-- The first bracket and the one that closes it, with the text around them. -/
structure Group where
  before : Text
  inner : Text
  behind : Text
  deriving DecidableEq

def group (op cl : Char) (t : Text) : Option Group := do
  let first ← find [op] t 0
  let last ← findClose op cl (t.drop first) first 0
  pure ⟨t.take first, slice t (first + 1) last, t.drop (last + 1)⟩

structure Group.Cuts (op cl : Char) (t : Text) (g : Group) : Prop where
  text : t = g.before ++ op :: (g.inner ++ cl :: g.behind)
  before : op ∉ g.before
  balanced : depthRun op cl 1 g.inner = some 1

section
variable {op cl : Char} {t : Text} {g : Group}

theorem Group.Cuts.group (hoc : cl ≠ op) (h : g.Cuts op cl t) : group op cl t = some g := by
  have hfind : find [op] t 0 = some g.before.length := by
    rw [find, List.drop_zero, h.text, findAux_append h.before, Nat.zero_add]
  have hdrop : t.drop g.before.length = op :: (g.inner ++ cl :: g.behind) := by
    rw [h.text, List.drop_left]
  have hclose : findClose op cl (op :: (g.inner ++ cl :: g.behind)) g.before.length 0 =
      some (g.before.length + 1 + g.inner.length) := by
    rw [findClose, if_pos rfl, Int.zero_add, findClose_append h.balanced, findClose, if_neg hoc,
      if_pos rfl]
    exact if_pos rfl
  have htake : t.take g.before.length = g.before := by
    rw [h.text, List.take_left]
  have hbehind : t.drop (g.before.length + 1 + g.inner.length + 1) = g.behind := by
    have hsplit : t = (g.before ++ op :: (g.inner ++ [cl])) ++ g.behind := by
      rw [h.text]
      simp only [List.append_assoc, List.cons_append, List.nil_append]
    have hlen : g.before.length + 1 + g.inner.length + 1 =
        (g.before ++ op :: (g.inner ++ [cl])).length := by
      simp only [List.length_append, List.length_cons, List.length_nil]
      omega
    rw [hlen, hsplit, List.drop_left]
  have hinner : slice t (g.before.length + 1) (g.before.length + 1 + g.inner.length) = g.inner := by
    rw [slice, ← List.drop_drop, hdrop, List.drop_one, List.tail_cons, Nat.add_sub_cancel_left,
      List.take_left]
  simp only [HbSplit.group, hfind, hdrop, hclose, htake, hbehind, hinner, Option.bind_eq_bind,
    Option.bind_some, Option.pure_def]

theorem cuts_of_group (hoc : cl ≠ op) (h : group op cl t = some g) : g.Cuts op cl t := by
  have hg := h
  simp only [HbSplit.group, Option.bind_eq_bind, Option.bind_eq_some_iff] at h
  obtain ⟨first, hfirst, last, hlast, -⟩ := h
  obtain ⟨pre, post, htext, hpre, rfl⟩ := findAux_char hfirst
  rw [List.drop_zero] at htext
  subst htext
  rw [Nat.zero_add, List.drop_left, findClose, if_pos rfl, Int.zero_add] at hlast
  obtain ⟨inner, behind, rfl, hbalanced, -⟩ := findClose_eq_some hlast
  have hcuts : Group.Cuts op cl (pre ++ op :: (inner ++ cl :: behind)) ⟨pre, inner, behind⟩ :=
    ⟨rfl, hpre, hbalanced⟩
  cases hg.symm.trans (hcuts.group hoc)
  exact hcuts

/-- What follows a group has no part in it. -/
theorem group_append (hoc : cl ≠ op) (h : group op cl t = some g) (z : Text) :
    group op cl (t ++ z) = some { g with behind := g.behind ++ z } := by
  have hcuts := cuts_of_group hoc h
  refine Group.Cuts.group hoc ⟨?_, hcuts.before, hcuts.balanced⟩
  rw [hcuts.text]
  simp only [List.append_assoc, List.cons_append]

/-- The parentheses that a search from the end of the name finds. -/
theorem findEntryParamClose_group {name u t : Text}
    (hname : findEntryName (u ++ t) name = some u.length) :
    findEntryParamClose (u ++ t) name = (group '(' ')' t).map fun g =>
      ((u ++ g.before).length, (u ++ g.before).length + 1 + g.inner.length) := by
  cases hg : group '(' ')' t with
  | some g =>
    have hcuts := cuts_of_group (by decide) hg
    exact EntryAt.find ⟨by rw [hcuts.text], hname, hcuts.before, hcuts.balanced⟩
  | none =>
    cases hfind : findEntryParamClose (u ++ t) name with
    | none => rfl
    | some p =>
      obtain ⟨u', gap, params, post, hentry, -, -⟩ := entryAt_of_find hfind
      have hlen := Option.some.inj (hname.symm.trans hentry.name)
      obtain ⟨rfl, ht⟩ := List.append_inj hentry.text hlen
      have hcuts : Group.Cuts '(' ')' t ⟨gap, params, post⟩ := ⟨ht, hentry.gap, hentry.balanced⟩
      rw [hcuts.group (by decide)] at hg
      cases hg

end

/-! ## The list and the body of an entry -/

/-- The three names are in the list.
mirrors platforms/cuda/hal/src/hb_split/backend.cpp:305-311 -/
def hasOffsets (params : Text) : Bool :=
  contains "__hb_off_x".toList params && contains "__hb_off_y".toList params &&
    contains "__hb_off_z".toList params

/-- `.param` is counted.
mirrors platforms/cuda/hal/src/hb_split/backend.cpp:503-510 -/
def countParams (params : Text) : Nat := params.tails.countP (".param".toList.isPrefixOf ·)

namespace Entry

/-- A list in front of the body. -/
def paramList (e : Entry) : Option Group :=
  (group '(' ')' e.rest).filter fun l => '{' ∉ e.name ++ l.before

/-- The entry with the offsets, from the end of the name on. -/
def withOffsets (l b : Group) : Text :=
  l.before ++ '(' :: (l.inner ++ addedParams l.inner ++ ')' ::
    (b.before ++ '{' :: (offsetHeader ++ rewriteAxes axes true b.inner ++ '}' :: b.behind)))

def paramCount (e : Entry) : Option Nat := e.paramList.map fun l => countParams l.inner

def offsets (e : Entry) : Bool := e.paramList.any fun l => hasOffsets l.inner

/-- The list and the body of an entry without offsets. -/
def parts (e : Entry) : Option (Group × Group) := do
  let l ← e.paramList
  let b ← group '{' '}' l.behind
  if hasOffsets l.inner then none else pure (l, b)

def crossBlockSync (e : Entry) : Bool := e.parts.any fun p => containsCrossBlockSync p.2.inner

/-- The entry transformed, from the end of the name on. -/
def transformed (e : Entry) : Option Text :=
  (e.parts.filter fun p => !containsCrossBlockSync p.2.inner).map fun p => withOffsets p.1 p.2

end Entry

/-- For the entry's name the functions work on the entry. -/
structure Resolves (m : PtxModule) (before : List Entry) (e : Entry) (after : List Entry) : Prop where
  name : findEntryName m.text e.name = some (m.upTo before e).length
  paramClose : findEntryParamClose m.text e.name = e.paramList.map fun l =>
    ((m.upTo before e ++ l.before).length, (m.upTo before e ++ l.before).length + 1 + l.inner.length)
  count : countParamsForKernel m.text e.name = e.paramCount
  modified : (transformKernelPtx m.text e.name).modified = e.transformed.isSome
  crossBlockSync : (transformKernelPtx m.text e.name).crossBlockSync = e.crossBlockSync
  ptxText : (transformKernelPtx m.text e.name).ptxText =
    m.upTo before e ++ (e.transformed.getD e.rest ++ textOf after)

/-- No other entry is taken for this one, and nothing behind it for a part of it. -/
structure Apart (before : List Entry) (e : Entry) (after : List Entry) : Prop where
  first : FirstFor before e after
  list : e.paramList = none → group '(' ')' (e.rest ++ textOf after) = none
  body : ∀ l, e.paramList = some l → hasOffsets l.inner = false → group '{' '}' l.behind = none →
    group '{' '}' (l.behind ++ textOf after) = none

/-! ## The transform of a text -/

section
variable {name u t : Text} {l b : Group}

theorem transform_of_none (hname : findEntryName (u ++ t) name = some u.length)
    (hl : group '(' ')' t = none) :
    transformKernelPtx (u ++ t) name = { ptxText := u ++ t, diagnostic := "ENTRY_NOT_FOUND" } := by
  have hclose := findEntryParamClose_group hname
  rw [hl, Option.map_none] at hclose
  rw [transformKernelPtx, hclose]

theorem entryAt_of_group (hname : findEntryName (u ++ t) name = some u.length)
    (hl : group '(' ')' t = some l) : EntryAt name (u ++ t) u l.before l.inner l.behind := by
  have hcuts := cuts_of_group (by decide) hl
  exact ⟨by rw [hcuts.text], hname, hcuts.before, hcuts.balanced⟩

theorem EntryAt.hasOffsets {s gap params post : Text} (h : EntryAt name s u gap params post) :
    paramListHasOffsets s (u ++ gap).length ((u ++ gap).length + 1 + params.length) =
      hasOffsets params := by
  rw [paramListHasOffsets, h.slice_params]
  rfl

theorem transform_of_offsets (hname : findEntryName (u ++ t) name = some u.length)
    (hl : group '(' ')' t = some l) (ho : hasOffsets l.inner = true) :
    transformKernelPtx (u ++ t) name =
      { ptxText := u ++ t, diagnostic := "ALREADY_TRANSFORMED" } := by
  have hentry := entryAt_of_group hname hl
  rw [transformKernelPtx, hentry.find]
  exact if_pos (hentry.hasOffsets.trans ho)

/-- The text with the parameters, from the end of the name on. -/
def injected (l : Group) : Text :=
  l.before ++ '(' :: (l.inner ++ addedParams l.inner ++ ')' :: l.behind)

/-- `TransformKernelPtx` from the search for the body on. -/
def transformBody (ptx withParams : Text) (close : Nat) : PtxTransformResult :=
  match find ['{'] withParams close with
  | none => { ptxText := ptx, diagnostic := "BODY_NOT_FOUND" }
  | some bodyOpen =>
    match findClosingBrace withParams bodyOpen with
    | none => { ptxText := ptx, diagnostic := "UNBALANCED_BRACES" }
    | some bodyClose =>
      let body := slice withParams (bodyOpen + 1) bodyClose
      if containsCrossBlockSync body then
        { ptxText := ptx, crossBlockSync := true, diagnostic := "CROSS_BLOCK_SYNC" }
      else
        let (body, x) := rewriteAxisMov .x body
        let (body, y) := rewriteAxisMov .y body
        let (body, z) := rewriteAxisMov .z body
        { ptxText := withParams.take (bodyOpen + 1) ++ offsetHeader ++ body ++
            withParams.drop bodyClose
          modified := true
          supportsOffsetX := x
          supportsOffsetY := y
          supportsOffsetZ := z
          diagnostic := "OK" }

/-- The text up to the parenthesis behind the added parameters. -/
def listEnd (u : Text) (l : Group) : Text :=
  u ++ (l.before ++ '(' :: (l.inner ++ addedParams l.inner))

theorem injected_listEnd : u ++ injected l = listEnd u l ++ ')' :: l.behind := by
  simp only [injected, listEnd, List.append_assoc, List.cons_append]

/-- Where the name is found again with the parameters. -/
theorem transform_search (hname : findEntryName (u ++ t) name = some u.length)
    (hl : group '(' ')' t = some l) (ho : hasOffsets l.inner = false)
    (hagain : findEntryName (u ++ injected l) name = some u.length) :
    transformKernelPtx (u ++ t) name =
      transformBody (u ++ t) (u ++ injected l) (listEnd u l).length := by
  have hentry := entryAt_of_group hname hl
  have hinjected : injectOffsetParams (u ++ t) (u ++ l.before).length
      ((u ++ l.before).length + 1 + l.inner.length) = u ++ injected l := by
    rw [hentry.injected, injected, List.append_assoc l.inner]
  have hentry' : EntryAt name (u ++ injected l) u l.before (l.inner ++ addedParams l.inner)
      l.behind := by
    refine ⟨rfl, hagain, hentry.gap, ?_⟩
    rw [depthRun_append, hentry.balanced]
    exact depthRun_added l.inner 1
  have hoffsets : paramListHasOffsets (u ++ t) (u ++ l.before).length
      ((u ++ l.before).length + 1 + l.inner.length) = false := hentry.hasOffsets.trans ho
  have hclose : (u ++ l.before).length + 1 + (l.inner ++ addedParams l.inner).length =
      (listEnd u l).length := by
    simp only [listEnd, List.length_append, List.length_cons]
    omega
  simp only [transformKernelPtx, hentry.find, hoffsets, Bool.false_eq_true, if_false, hinjected,
    hentry'.find, hclose]
  rfl

theorem transformBody_of_none {ptx : Text} (hb : group '{' '}' l.behind = none) :
    (transformBody ptx (u ++ injected l) (listEnd u l).length).modified = false ∧
      (transformBody ptx (u ++ injected l) (listEnd u l).length).crossBlockSync = false := by
  unfold transformBody
  split
  · exact ⟨rfl, rfl⟩
  next bodyOpen hopen =>
  split
  · exact ⟨rfl, rfl⟩
  next bodyClose hclose =>
  -- the braces would be a group behind the list
  exfalso
  obtain ⟨head, gap, body, post, hlayout⟩ := layout_of_find hopen hclose
  have htext := hlayout.text
  rw [injected_listEnd] at htext
  obtain ⟨-, hrest⟩ := List.append_inj htext hlayout.close.symm
  cases gap with
  | nil => exact absurd (List.head_eq_of_cons_eq hrest) (by decide)
  | cons c gap =>
    rw [List.cons_append, List.cons_eq_cons] at hrest
    have hcuts : Group.Cuts '{' '}' l.behind ⟨gap, body, post⟩ :=
      ⟨hrest.2, List.not_mem_of_not_mem_cons hlayout.gap, hlayout.balanced⟩
    rw [hcuts.group (by decide)] at hb
    cases hb

theorem transformBody_of_some (ptx : Text) (hb : group '{' '}' l.behind = some b) :
    (containsCrossBlockSync b.inner = true →
      (transformBody ptx (u ++ injected l) (listEnd u l).length).modified = false ∧
      (transformBody ptx (u ++ injected l) (listEnd u l).length).crossBlockSync = true) ∧
    (containsCrossBlockSync b.inner = false →
      (transformBody ptx (u ++ injected l) (listEnd u l).length).modified = true ∧
      (transformBody ptx (u ++ injected l) (listEnd u l).length).crossBlockSync = false ∧
      (transformBody ptx (u ++ injected l) (listEnd u l).length).ptxText =
        u ++ Entry.withOffsets l b) := by
  have hcuts := cuts_of_group (by decide) hb
  have hlayout : Layout (u ++ injected l) (listEnd u l).length (listEnd u l) (')' :: b.before)
      b.inner b.behind := by
    refine ⟨?_, rfl, ?_, hcuts.balanced⟩
    · rw [injected_listEnd, hcuts.text, List.cons_append]
    · rw [List.mem_cons, not_or]
      exact ⟨by decide, hcuts.before⟩
  constructor
  · intro hsync
    simp only [transformBody, hlayout.find, hlayout.closingBrace, hlayout.slice, hsync, if_true]
    exact ⟨trivial, trivial⟩
  · intro hsync
    simp only [transformBody, hlayout.find, hlayout.closingBrace, hlayout.slice, hsync,
      Bool.false_eq_true, if_false, hlayout.around.1, hlayout.around.2]
    refine ⟨trivial, trivial, ?_⟩
    have hbody : (rewriteAxisMov .z (rewriteAxisMov .y (rewriteAxisMov .x b.inner).1).1).1 =
        rewriteAxes axes true b.inner := rfl
    rw [hbody]
    simp only [listEnd, Entry.withOffsets, List.append_assoc, List.cons_append, List.nil_append]

end

theorem countParamsForKernel_group {name u t : Text}
    (hname : findEntryName (u ++ t) name = some u.length) :
    countParamsForKernel (u ++ t) name = (group '(' ')' t).map fun l => countParams l.inner := by
  rw [countParamsForKernel, findEntryParamClose_group hname, Option.map_map]
  cases hl : group '(' ')' t with
  | none => rfl
  | some l =>
    have hslice := (entryAt_of_group hname hl).slice_params
    simp only [Option.map_some, Function.comp_apply, hslice]
    rfl

/-! ## An entry with another rest -/

/-- All but what follows the name. -/
structure Like (e e' : Entry) : Prop where
  taken : e'.taken = e.taken
  visible : e'.visible = e.visible
  gap : e'.gap = e.gap
  name : e'.name = e.name

theorem Like.rfl {e : Entry} : Like e e := ⟨Eq.refl _, Eq.refl _, Eq.refl _, Eq.refl _⟩

theorem suffix_behind {w x y : Text} {c : Char} (hc : c ∉ w) : w <:+ x ++ c :: y ↔ w <:+ y := by
  have hy : y <:+ x ++ c :: y := (List.suffix_cons c y).trans (List.suffix_append x _)
  refine ⟨fun h => ?_, fun h => h.trans hy⟩
  rcases List.suffix_or_suffix_of_suffix h (List.suffix_append x (c :: y)) with h | h
  · rcases List.suffix_cons_iff.1 h with rfl | h
    · exact absurd List.mem_cons_self hc
    · exact h
  · exact absurd (h.subset List.mem_cons_self) hc

theorem marked_congr {b b' : Text} {es : List Entry} (hlast : b'.getLast? = b.getLast?)
    (hvisible : visibleWord <:+ b' ↔ visibleWord <:+ b) (h : Marked b es) : Marked b' es := by
  cases es with
  | nil => trivial
  | cons e es =>
    refine ⟨by rw [hlast]; exact h.1, ?_, h.2.2⟩
    rw [h.2.1, Bool.eq_iff_iff, List.isSuffixOf_iff_suffix, List.isSuffixOf_iff_suffix]
    exact hvisible.symm

theorem marked_replace {b : Text} {before after : List Entry} {e e' : Entry} (hlike : Like e e')
    (hne : e'.rest ≠ []) (hlast : e'.text.getLast? = e.text.getLast?)
    (hvisible : visibleWord <:+ e'.text ↔ visibleWord <:+ e.text)
    (h : Marked b (before ++ e :: after)) : Marked b (before ++ e' :: after) := by
  induction before generalizing b with
  | nil =>
    obtain ⟨htaken, hv, -, hmarked⟩ := h
    refine ⟨?_, hlike.visible.trans hv, fun hr => absurd hr hne, marked_congr hlast hvisible hmarked⟩
    rw [hlike.taken, hlike.name]
    exact htaken
  | cons g before ih => exact ⟨h.1, h.2.1, fun hr => by simpa using h.2.2.1 hr, ih h.2.2.2⟩

/-- The rest of an entry may be exchanged for one with the same end and no new
`.entry `. -/
theorem exists_withRest {m : PtxModule} {before after : List Entry} {e : Entry}
    (h : m.entries = before ++ e :: after) {r x z y : Text} {c : Char} (hx : e.rest = x ++ c :: y)
    (hz : r = z ++ c :: y) (hc : c ∉ visibleWord) (hhead : r.head? = e.rest.head?)
    (hsingle : entryNeedle <:+: e.name ++ r → entryNeedle <:+: e.name ++ e.rest) :
    ∃ (m' : PtxModule) (e' : Entry), m'.head = m.head ∧ m'.entries = before ++ e' :: after ∧
      Like e e' ∧ e'.rest = r := by
  let e' : Entry :=
    { e with
      rest := r
      stop := hhead ▸ e.stop
      gap_stop := hhead ▸ e.gap_stop
      single := fun hin => e.single (hsingle hin) }
  have htext : ∀ f : Entry, ∀ w : Text, f.rest = w ++ c :: y →
      f.text = (entryNeedle ++ (f.gap ++ (f.name ++ w))) ++ c :: y := by
    intro f w hw
    rw [Entry.text, Entry.tail, hw]
    simp only [List.append_assoc]
  have hmarked : Marked m.head (before ++ e' :: after) := by
    have hlike : Like e e' := ⟨rfl, rfl, rfl, rfl⟩
    refine marked_replace hlike ?_ ?_ ?_ (h ▸ m.marked)
    · change r ≠ []
      rw [hz]
      simp
    · rw [htext e' z hz, htext e x hx, List.getLast?_append_cons, List.getLast?_append_cons]
    · rw [htext e' z hz, htext e x hx, suffix_behind hc, suffix_behind hc]
  exact ⟨⟨m.head, before ++ e' :: after, m.single, hmarked⟩, e', rfl, rfl, ⟨rfl, rfl, rfl, rfl⟩, rfl⟩

theorem upTo_like {m m' : PtxModule} {before : List Entry} {e e' : Entry} (hhead : m'.head = m.head)
    (h : Like e e') : m'.upTo before e' = m.upTo before e := by
  rw [PtxModule.upTo, PtxModule.upTo, hhead, h.gap, h.name]

theorem FirstFor.like {before after : List Entry} {e e' : Entry} (h : FirstFor before e after)
    (hlike : Like e e') : FirstFor before e' after := by
  refine ⟨hlike.gap.trans h.gap, ?_, ?_⟩
  · rw [hlike.visible, hlike.name]
    exact h.before
  · rw [hlike.visible, hlike.name]
    exact h.after

/-! ## No new entry -/

theorem needle_space {n₁ n₂ : Text} (h : entryNeedle = n₁ ++ ' ' :: n₂) : n₁ = ".entry".toList := by
  have hcount := congrArg (List.count ' ') h
  have hone : entryNeedle.count ' ' = 1 := by decide
  rw [hone, List.count_append, List.count_cons_self] at hcount
  have hnone : ' ' ∉ n₁ := List.count_eq_zero.1 (by omega)
  have hneedle : entryNeedle = ".entry".toList ++ ' ' :: [] := rfl
  exact (append_cons_first (by decide) hnone (hneedle.symm.trans h)).1.symm

section
variable {name rest : Text} {l b : Group}

theorem needle_of_injected (hl : l.Cuts '(' ')' rest) (h : entryNeedle <:+: name ++ injected l) :
    entryNeedle <:+: name ++ rest := by
  have hin : entryNeedle <:+:
      (name ++ l.before) ++ '(' :: (l.inner ++ (addedParams l.inner ++ ')' :: l.behind)) := by
    simpa only [injected, List.append_assoc] using h
  have hout : entryNeedle <:+: (name ++ l.before) ++ '(' :: (l.inner ++ ')' :: l.behind) :=
    of_injected (d := 'e') (n := "ntry ".toList) rfl (.inr rfl) (by decide)
      (fun n₁ n₂ hn => by rw [needle_space hn]; exact ⟨'y', rfl, by decide, by decide⟩) hin
  rw [hl.text, ← List.append_assoc]
  exact hout

theorem needle_of_withOffsets (hl : l.Cuts '(' ')' rest) (hb : b.Cuts '{' '}' l.behind)
    (h : entryNeedle <:+: name ++ Entry.withOffsets l b) : entryNeedle <:+: name ++ rest := by
  have hsplit : ∀ z : Text, name ++ (l.before ++ '(' :: (l.inner ++ addedParams l.inner ++ ')' ::
      (b.before ++ '{' :: z))) = (name ++ (l.before ++ '(' :: (l.inner ++ addedParams l.inner ++ ')' ::
        (b.before ++ ['{'])))) ++ z := by
    intro z
    simp only [List.append_assoc, List.cons_append, List.nil_append]
  rw [Entry.withOffsets, hsplit] at h
  have hin := of_rewritten (d := 'e') (n := "ntry ".toList) rfl (.inr rfl) (by decide)
    (rewritten_rewriteAxes axes_nodup true b.inner) h
  rw [← hsplit] at hin
  refine needle_of_injected hl ?_
  rw [injected, hb.text]
  exact hin

end

/-! ## When a name resolves to its entry -/

section
variable {m : PtxModule} {before after : List Entry} {e : Entry} {l b : Group}

theorem paramList_cuts (hl : e.paramList = some l) : l.Cuts '(' ')' e.rest :=
  cuts_of_group (by decide) (Option.filter_eq_some_iff.1 hl).1

theorem group_rest (hl : e.paramList = some l) (z : Text) :
    group '(' ')' (e.rest ++ z) = some { l with behind := l.behind ++ z } :=
  group_append (by decide) (Option.filter_eq_some_iff.1 hl).1 z

theorem injected_append (l : Group) (z : Text) :
    injected { l with behind := l.behind ++ z } = injected l ++ z := by
  simp only [injected, List.append_assoc, List.cons_append]

theorem withOffsets_append (l b : Group) (z y : Text) :
    Entry.withOffsets { l with behind := y } { b with behind := b.behind ++ z } =
      Entry.withOffsets l b ++ z := by
  simp only [Entry.withOffsets, List.append_assoc, List.cons_append]

theorem taken_name {b : Text} (h : Marked b (before ++ e :: after)) (ht : e.taken = true) :
    e.name ≠ [] := by
  induction before generalizing b with
  | nil =>
    have htaken := h.1.symm.trans ht
    rw [Bool.and_eq_true] at htaken
    intro hn
    rw [hn] at htaken
    cases htaken.2
  | cons g before ih => exact ih h.2.2.2

/-- The name is found again with the parameters. -/
theorem found_again (h : m.entries = before ++ e :: after) (hne : e.name ≠ [])
    (hfirst : FirstFor before e after) (hl : e.paramList = some l) :
    findEntryName (m.upTo before e ++ (injected l ++ textOf after)) e.name =
      some (m.upTo before e).length := by
  have hcuts := paramList_cuts hl
  obtain ⟨m', e', hhead, hentries, hlike, hrest⟩ := exists_withRest h (r := injected l)
    (x := l.before ++ '(' :: l.inner) (z := l.before ++ '(' :: (l.inner ++ addedParams l.inner))
    (y := l.behind) (c := ')')
    (by rw [hcuts.text]; simp only [List.append_assoc, List.cons_append])
    (by simp only [injected, List.append_assoc, List.cons_append])
    (by decide)
    (by rw [hcuts.text, injected, List.head?_append, List.head?_append]; rfl)
    (needle_of_injected hcuts)
  have hfound := (findEntryName_iff hentries (by rw [hlike.name]; exact hne)).2 (hfirst.like hlike)
  rw [PtxModule.text_split hentries, upTo_like hhead hlike, hrest, hlike.name] at hfound
  exact hfound

/-- The body that is searched for, if the list is the entry's. -/
theorem transform_entry (h : m.entries = before ++ e :: after) (hne : e.name ≠ [])
    (hfirst : FirstFor before e after) (hl : e.paramList = some l) (ho : hasOffsets l.inner = false) :
    transformKernelPtx m.text e.name = transformBody m.text
      (m.upTo before e ++ injected { l with behind := l.behind ++ textOf after })
      (listEnd (m.upTo before e) { l with behind := l.behind ++ textOf after }).length := by
  have hname := (findEntryName_iff h hne).2 hfirst
  have hagain := found_again h hne hfirst hl
  rw [PtxModule.text_split h] at hname ⊢
  rw [← injected_append] at hagain
  exact transform_search hname (group_rest hl (textOf after)) ho hagain

theorem Apart.group (hap : Apart before e after) :
    group '(' ')' (e.rest ++ textOf after) =
      e.paramList.map fun l => { l with behind := l.behind ++ textOf after } := by
  cases hl : e.paramList with
  | none => exact hap.list hl
  | some l => exact group_rest hl _

theorem parts_of_some (hl : e.paramList = some l) :
    e.parts = if hasOffsets l.inner then none else (group '{' '}' l.behind).map fun b => (l, b) := by
  rw [Entry.parts, hl, Option.bind_eq_bind, Option.bind_some]
  cases group '{' '}' l.behind with
  | none => rw [Option.map_none, ite_self]; rfl
  | some b => rfl

theorem parts_of_none (hl : e.paramList = none) : e.parts = none := by
  rw [Entry.parts, hl]
  rfl

/-- What the transform does with an entry. -/
theorem transform_of_apart (h : m.entries = before ++ e :: after) (hne : e.name ≠ [])
    (hap : Apart before e after) :
    (transformKernelPtx m.text e.name).modified = e.transformed.isSome ∧
      (transformKernelPtx m.text e.name).crossBlockSync = e.crossBlockSync ∧
      (transformKernelPtx m.text e.name).ptxText =
        m.upTo before e ++ (e.transformed.getD e.rest ++ textOf after) := by
  have hname := (findEntryName_iff h hne).2 hap.first
  have htext := PtxModule.text_split h
  have hsame : (transformKernelPtx m.text e.name).modified = false →
      (transformKernelPtx m.text e.name).ptxText =
        m.upTo before e ++ (e.rest ++ textOf after) := fun hm =>
    (transformKernelPtx_unmodified hm).trans htext
  cases hl : e.paramList with
  | none =>
    have hT : transformKernelPtx m.text e.name =
        { ptxText := m.text, diagnostic := "ENTRY_NOT_FOUND" } := by
      rw [htext] at hname ⊢
      exact transform_of_none hname (hap.list hl)
    rw [Entry.transformed, Entry.crossBlockSync, parts_of_none hl]
    exact ⟨by rw [hT]; rfl, by rw [hT]; rfl, hsame (by rw [hT])⟩
  | some l =>
    cases ho : hasOffsets l.inner with
    | true =>
      have hT : transformKernelPtx m.text e.name =
          { ptxText := m.text, diagnostic := "ALREADY_TRANSFORMED" } := by
        rw [htext] at hname ⊢
        exact transform_of_offsets hname (group_rest hl _) ho
      rw [Entry.transformed, Entry.crossBlockSync, parts_of_some hl, ho]
      exact ⟨by rw [hT]; rfl, by rw [hT]; rfl, hsame (by rw [hT])⟩
    | false =>
      have hT := transform_entry h hne hap.first hl ho
      have hparts := parts_of_some hl
      rw [ho, if_neg Bool.false_ne_true] at hparts
      cases hb : group '{' '}' l.behind with
      | none =>
        obtain ⟨hm, hc⟩ := transformBody_of_none (u := m.upTo before e)
          (l := { l with behind := l.behind ++ textOf after }) (hap.body l hl ho hb)
        rw [← hT] at hm hc
        rw [hb, Option.map_none] at hparts
        rw [Entry.transformed, Entry.crossBlockSync, hparts]
        exact ⟨hm, hc, hsame hm⟩
      | some b =>
        obtain ⟨hsync, hfree⟩ := transformBody_of_some (u := m.upTo before e)
          (l := { l with behind := l.behind ++ textOf after }) m.text
          (group_append (by decide) hb (textOf after))
        rw [← hT] at hsync hfree
        rw [hb, Option.map_some] at hparts
        cases hs : containsCrossBlockSync b.inner with
        | true =>
          obtain ⟨hm, hc⟩ := hsync hs
          have hnone : e.transformed = none := by
            rw [Entry.transformed, hparts, Option.filter_some, hs]
            rfl
          have hcross : e.crossBlockSync = true := by
            rw [Entry.crossBlockSync, hparts]
            exact hs
          rw [hnone, hcross]
          exact ⟨hm, hc, hsame hm⟩
        | false =>
          obtain ⟨hm, hc, hout⟩ := hfree hs
          have hsome : e.transformed = some (Entry.withOffsets l b) := by
            rw [Entry.transformed, hparts, Option.filter_some, hs]
            rfl
          have hcross : e.crossBlockSync = false := by
            rw [Entry.crossBlockSync, hparts]
            exact hs
          rw [hsome, hcross, hout, withOffsets_append]
          exact ⟨hm, hc, rfl⟩

theorem resolves_of_apart (h : m.entries = before ++ e :: after) (hne : e.name ≠ [])
    (hap : Apart before e after) : Resolves m before e after := by
  have hname := (findEntryName_iff h hne).2 hap.first
  have htext := PtxModule.text_split h
  obtain ⟨hm, hc, hout⟩ := transform_of_apart h hne hap
  refine ⟨hname, ?_, ?_, hm, hc, hout⟩
  · rw [htext] at hname ⊢
    rw [findEntryParamClose_group hname, hap.group, Option.map_map]
    rfl
  · rw [htext] at hname ⊢
    rw [countParamsForKernel_group hname, hap.group, Option.map_map]
    rfl

theorem apart_of_resolves (h : m.entries = before ++ e :: after) (hne : e.name ≠ [])
    (hr : Resolves m before e after) : Apart before e after := by
  have hname := hr.name
  have hfirst := (findEntryName_iff h hne).1 hname
  have htext := PtxModule.text_split h
  refine ⟨hfirst, fun hl => ?_, fun l hl ho hb => ?_⟩
  · have hclose := hr.paramClose
    rw [htext] at hname hclose
    rw [findEntryParamClose_group hname, hl, Option.map_none, Option.map_eq_none_iff] at hclose
    exact hclose
  · cases hgroup : group '{' '}' (l.behind ++ textOf after) with
    | none => rfl
    | some b =>
      -- a body behind the entry would be transformed, or refused for what it calls
      exfalso
      have hT := transform_entry h hne hfirst hl ho
      obtain ⟨hsync, hfree⟩ := transformBody_of_some (u := m.upTo before e)
        (l := { l with behind := l.behind ++ textOf after }) m.text hgroup
      rw [← hT] at hsync hfree
      have hparts : e.parts = none := by
        rw [parts_of_some hl, hb, Option.map_none, ite_self]
      cases hs : containsCrossBlockSync b.inner with
      | true =>
        have hc := hr.crossBlockSync
        rw [(hsync hs).2, Entry.crossBlockSync, hparts] at hc
        cases hc
      | false =>
        have hm := hr.modified
        rw [(hfree hs).1, Entry.transformed, hparts] at hm
        cases hm

/-- For its own name the functions work on an entry if and only if the entry stands
apart. -/
theorem resolves_iff (h : m.entries = before ++ e :: after) (hne : e.name ≠ []) :
    Resolves m before e after ↔ Apart before e after :=
  ⟨apart_of_resolves h hne, resolves_of_apart h hne⟩

end

end Xsched.HbSplit
