import Xsched.HbSplit.EntryNames
import Xsched.HbSplit.Search

/-!
# Which entry a name finds

A PTX text falls into the pieces between its `.entry `s: behind each are some
space, a name, and the rest of the piece (`PtxModule`). `CollectEntryNames` reads
the names of the pieces (`collectEntryNames_text`). Every text is of this kind but
one in which a name goes on to the next `.entry ` (`exists_module`), and in one way
(`PtxModule.text_injective`). `FindEntryName` does not read
them: it searches for `.entry ` and the name as a string, which also occurs
where a longer name begins, and prefers what `.visible ` goes before.

**Result**
* `findEntryName_iff`: the entry is found by its name if and only if a single
  space goes before the name and no entry that the search prefers has a name
  that begins with it (`FirstFor`).
-/
namespace Xsched.HbSplit

open Infix (not_infix_append occurs_behind cut_unique)

def visibleWord : Text := ".visible ".toList

/-- What an `.entry ` and the text up to the next one say. -/
structure Entry where
  /-- `CollectEntryNames` takes its name -/
  taken : Bool
  visible : Bool
  gap : Text
  name : Text
  rest : Text
  gap_space : ∀ c ∈ gap, isSpaceChar c = true
  name_chars : ∀ c ∈ name, isNameChar c = true
  stop : ∀ c ∈ rest.head?, isNameChar c = false
  gap_stop : name = [] → ∀ c ∈ rest.head?, isSpaceChar c = false
  single : ¬ entryNeedle <:+: name ++ rest

namespace Entry

def tail (e : Entry) : Text := e.gap ++ (e.name ++ e.rest)

def text (e : Entry) : Text := entryNeedle ++ e.tail

end Entry

/-- The pieces are marked by what goes before them, and no name runs into the next
piece. -/
def Marked : Text → List Entry → Prop
  | _, [] => True
  | before, e :: es =>
    e.taken = (!before.getLast?.any isEntryPrefix && !e.name.isEmpty) ∧
      e.visible = visibleWord.isSuffixOf before ∧ (e.rest = [] → es = []) ∧ Marked e.text es

/-- A PTX text, cut at each `.entry `. -/
structure PtxModule where
  head : Text
  entries : List Entry
  single : ¬ entryNeedle <:+: head
  marked : Marked head entries

def textOf (entries : List Entry) : Text := entries.flatMap Entry.text

namespace PtxModule

def text (m : PtxModule) : Text := m.head ++ textOf m.entries

def names (m : PtxModule) : List Text := (m.entries.filter Entry.taken).map Entry.name

end PtxModule

/-! ## The pieces -/

theorem entryNeedle_eq : entryNeedle = '.' :: "entry ".toList := rfl

theorem entryNeedle_dot : '.' ∉ "entry ".toList := by decide

@[simp] theorem textOf_nil : textOf [] = [] := rfl

theorem textOf_cons (e : Entry) (es : List Entry) : textOf (e :: es) = e.text ++ textOf es :=
  List.flatMap_cons

theorem textOf_append (es es' : List Entry) : textOf (es ++ es') = textOf es ++ textOf es' :=
  List.flatMap_append

theorem textOf_follows (es : List Entry) : textOf es = [] ∨ entryNeedle <+: textOf es := by
  cases es with
  | nil => exact .inl rfl
  | cons e es =>
    rw [textOf_cons, Entry.text, List.append_assoc]
    exact .inr (List.prefix_append _ _)

theorem Entry.text_ne (e : Entry) : e.text ≠ [] := nofun

theorem Entry.not_infix_tail (e : Entry) : ¬ entryNeedle <:+: e.tail := by
  refine not_infix_append (fun hmem => ?_) e.single
  exact absurd (e.gap_space _ hmem) (by decide)

theorem Entry.not_infix_rest (e : Entry) : ¬ entryNeedle <:+: e.rest := fun h =>
  e.single (List.infix_append_of_infix_right h)

/-- Where an `.entry ` stands. -/
theorem occurs_entry {head : Text} {entries : List Entry} (hhead : ¬ entryNeedle <:+: head)
    {u v : Text} (h : head ++ textOf entries = u ++ (entryNeedle ++ v)) :
    ∃ before e after, entries = before ++ e :: after ∧ u = head ++ textOf before ∧
      v = e.tail ++ textOf after := by
  induction entries generalizing head u with
  | nil =>
    rw [textOf_nil, List.append_nil] at h
    exact absurd ⟨u, v, by rw [h, List.append_assoc]⟩ hhead
  | cons e es ih =>
    obtain ⟨u', rfl, hu'⟩ := occurs_behind entryNeedle_dot hhead (textOf_follows (e :: es)) h
    rw [textOf_cons, Entry.text, List.append_assoc, ← entryNeedle_eq] at hu'
    cases u' with
    | nil =>
      rw [List.nil_append, List.append_cancel_left_eq] at hu'
      exact ⟨[], e, es, rfl, rfl, hu'.symm⟩
    | cons c u' =>
      -- behind the dot, the piece has no other
      have hpiece : ¬ entryNeedle <:+: "entry ".toList ++ e.tail :=
        not_infix_append entryNeedle_dot e.not_infix_tail
      rw [entryNeedle_eq, List.cons_append, List.cons_append, List.cons_eq_cons, ← entryNeedle_eq,
        ← List.append_assoc] at hu'
      obtain ⟨rfl, hu'⟩ := hu'
      obtain ⟨before, f, after, rfl, rfl, rfl⟩ := ih hpiece hu'
      refine ⟨e :: before, f, after, rfl, ?_, rfl⟩
      rw [textOf_cons, Entry.text, entryNeedle_eq]
      simp only [List.append_assoc, List.cons_append]

/-! ## The names -/

theorem stop_append {e : Entry} {t : Text} (hrest : e.rest = [] → t = []) :
    ∀ c ∈ (e.rest ++ t).head?, isNameChar c = false := by
  intro c hc
  cases hr : e.rest with
  | nil =>
    rw [hr, hrest hr] at hc
    cases hc
  | cons d r =>
    rw [hr] at hc
    exact e.stop c (hr ▸ hc)

theorem nameChar_not_space {c : Char} (h : isNameChar c = true) : isSpaceChar c = false := by
  rw [isNameChar, Bool.and_eq_true, Bool.not_eq_true'] at h
  exact h.1

theorem gap_append {e : Entry} {t : Text} (hrest : e.rest = [] → t = []) :
    ∀ c ∈ (e.name ++ (e.rest ++ t)).head?, isSpaceChar c = false := by
  intro c hc
  cases hn : e.name with
  | nil =>
    rw [hn] at hc
    cases hr : e.rest with
    | nil =>
      rw [hr, hrest hr] at hc
      cases hc
    | cons d r =>
      rw [hr] at hc
      exact e.gap_stop hn c (hr ▸ hc)
  | cons d n =>
    rw [hn] at hc
    cases hc
    exact nameChar_not_space (e.name_chars _ (hn ▸ List.mem_cons_self))

theorem collectGo_skip (prev : Option Char) (w t : Text) :
    collectGo prev w.length (w ++ t) = collectGo (w.getLast?.or prev) 0 t := by
  induction w generalizing prev with
  | nil => rfl
  | cons c w ih =>
    rw [List.length_cons, List.cons_append, collectGo, ih, List.getLast?_cons]
    cases w.getLast? <;> rfl

/-- Nothing is read from a text without `.entry `. -/
theorem collectGo_free {w t : Text} (hw : ¬ entryNeedle <:+: w) (ht : t = [] ∨ entryNeedle <+: t)
    (prev : Option Char) : collectGo prev 0 (w ++ t) = collectGo (w.getLast?.or prev) 0 t := by
  induction w generalizing prev with
  | nil => rfl
  | cons c w ih =>
    have hstrip : strip entryNeedle (c :: (w ++ t)) = none := by
      cases hs : strip entryNeedle (c :: (w ++ t)) with
      | none => rfl
      | some v =>
        have he : (c :: w) ++ t = [] ++ (entryNeedle ++ v) := by
          rw [List.nil_append]
          exact strip_eq_some.1 hs
        obtain ⟨u', hu, -⟩ := occurs_behind entryNeedle_dot hw ht he
        cases hu
    rw [List.cons_append, collectGo, hstrip]
    dsimp only
    rw [ih fun h => hw (List.infix_cons h), List.getLast?_cons]
    cases w.getLast? <;> rfl

/-- What `CollectEntryNames` reads of one piece. -/
theorem collectGo_entry (e : Entry) {t : Text} (ht : t = [] ∨ entryNeedle <+: t)
    (hrest : e.rest = [] → t = []) (prev : Option Char) :
    collectGo prev 0 (e.text ++ t) =
      (if (!prev.any isEntryPrefix && !e.name.isEmpty) = true then [e.name] else []) ++
        collectGo e.text.getLast? 0 t := by
  have hsplit : e.text ++ t = '.' :: ("entry ".toList ++ (e.tail ++ t)) := by
    rw [Entry.text, entryNeedle_eq, List.cons_append, List.cons_append, List.append_assoc]
  have hstrip : strip entryNeedle (e.text ++ t) = some (e.tail ++ t) := by
    rw [Entry.text, List.append_assoc]
    exact strip_append _ _
  have hlast : e.text.getLast? = e.tail.getLast?.or (some ' ') := by
    rw [Entry.text, List.getLast?_append]
    rfl
  rw [hsplit] at hstrip ⊢
  rw [collectGo, hstrip]
  dsimp only
  by_cases hprev : prev.any isEntryPrefix = true
  · rw [if_pos hprev, hprev]
    have hskip := collectGo_skip (some '.') "entry ".toList (e.tail ++ t)
    rw [show "entry ".toList.length = 6 from rfl] at hskip
    rw [hskip, collectGo_free e.not_infix_tail ht, hlast]
    rfl
  · rw [if_neg hprev]
    have htail : e.tail ++ t = e.gap ++ (e.name ++ (e.rest ++ t)) := by
      simp only [Entry.tail, List.append_assoc]
    obtain ⟨hws, hdrop⟩ := span_append e.gap_space (gap_append hrest)
    obtain ⟨hname, -⟩ := span_append e.name_chars (stop_append hrest)
    rw [htail, hws, hdrop, hname]
    -- the needle, the space and the name are passed over
    have hskip := collectGo_skip (some '.') ("entry ".toList ++ (e.gap ++ e.name)) (e.rest ++ t)
    have hlen : ("entry ".toList ++ (e.gap ++ e.name)).length = 6 + e.gap.length + e.name.length := by
      simp only [List.length_append]
      rw [← Nat.add_assoc]
      rfl
    have hjoin : "entry ".toList ++ (e.gap ++ (e.name ++ (e.rest ++ t))) =
        ("entry ".toList ++ (e.gap ++ e.name)) ++ (e.rest ++ t) := by
      simp only [List.append_assoc]
    have hend : e.rest.getLast?.or
        (("entry ".toList ++ (e.gap ++ e.name)).getLast?.or (some '.')) = e.text.getLast? := by
      have hneedle : "entry ".toList.getLast? = some ' ' := rfl
      simp only [hlast, Entry.tail, List.getLast?_append, hneedle]
      cases e.rest.getLast? <;> cases e.name.getLast? <;> cases e.gap.getLast? <;> rfl
    rw [hjoin, ← hlen, hskip, collectGo_free e.not_infix_rest ht, hend]
    rw [Bool.not_eq_true] at hprev
    rw [hprev]
    cases e.name <;> rfl

theorem collectGo_textOf {before : Text} {entries : List Entry} (h : Marked before entries) :
    collectGo before.getLast? 0 (textOf entries) =
      (entries.filter Entry.taken).map Entry.name := by
  induction entries generalizing before with
  | nil => rfl
  | cons e es ih =>
    obtain ⟨htaken, -, hrest, hmarked⟩ := h
    rw [textOf_cons, collectGo_entry e (textOf_follows es) fun hr => by rw [hrest hr]; rfl,
      ih hmarked, ← htaken]
    cases ht : e.taken with
    | true => rw [if_pos rfl, List.filter_cons_of_pos ht]; rfl
    | false => rw [if_neg Bool.false_ne_true, List.filter_cons_of_neg (by rw [ht]; decide)]; rfl

theorem collectEntryNames_text (m : PtxModule) : collectEntryNames m.text = m.names := by
  rw [collectEntryNames, PtxModule.text, collectGo_free m.single (textOf_follows m.entries),
    Option.or_none]
  exact collectGo_textOf m.marked

/-! ## One way to cut -/

theorem tail_inj {e e' : Entry} (h : e.tail = e'.tail) :
    e.gap = e'.gap ∧ e.name = e'.name ∧ e.rest = e'.rest := by
  have hstop : ∀ e : Entry, e.tail.takeWhile isSpaceChar = e.gap ∧
      (e.tail.dropWhile isSpaceChar).takeWhile isNameChar = e.name ∧
      (e.tail.dropWhile isSpaceChar).dropWhile isNameChar = e.rest := by
    intro e
    obtain ⟨hgap, hdrop⟩ := span_append e.gap_space (gap_append (e := e) (t := []) fun _ => rfl)
    obtain ⟨hname, hrest⟩ := span_append e.name_chars (stop_append (e := e) (t := []) fun _ => rfl)
    rw [List.append_nil] at hgap hdrop hname hrest
    rw [Entry.tail, hgap, hdrop]
    exact ⟨rfl, hname, hrest⟩
  obtain ⟨hgap, hname, hrest⟩ := hstop e
  obtain ⟨hgap', hname', hrest'⟩ := hstop e'
  rw [← hgap, ← hgap', ← hname, ← hname', ← hrest, ← hrest', h]
  exact ⟨rfl, rfl, rfl⟩

theorem textOf_inj {before : Text} {es es' : List Entry} (h : Marked before es)
    (h' : Marked before es') (heq : textOf es = textOf es') : es = es' := by
  induction es generalizing before es' with
  | nil =>
    cases es' with
    | nil => rfl
    | cons e' es' => cases heq
  | cons e es ih =>
    cases es' with
    | nil => cases heq
    | cons e' es' =>
      rw [textOf_cons, textOf_cons, Entry.text, Entry.text, entryNeedle_eq, List.cons_append,
        List.cons_append, List.cons_append, List.cons_append, List.cons_eq_cons] at heq
      have hpiece : ∀ e : Entry, ¬ entryNeedle <:+: "entry ".toList ++ e.tail := fun e =>
        not_infix_append entryNeedle_dot e.not_infix_tail
      obtain ⟨htail, hes⟩ := cut_unique entryNeedle_dot (hpiece e) (hpiece e') (textOf_follows es)
        (textOf_follows es') heq.2
      obtain ⟨hgap, hname, hrest⟩ := tail_inj (List.append_cancel_left htail)
      have he : e = e' := by
        obtain ⟨taken, visible, gap, name, rest⟩ := e
        obtain ⟨taken', visible', gap', name', rest'⟩ := e'
        obtain rfl := hgap
        obtain rfl := hname
        obtain rfl := hrest
        obtain rfl : taken = taken' := h.1.trans h'.1.symm
        obtain rfl : visible = visible' := h.2.1.trans h'.2.1.symm
        rfl
      subst he
      rw [ih h.2.2.2 h'.2.2.2 hes]

/-- A text is cut in one way. -/
theorem PtxModule.text_injective {m m' : PtxModule} (h : m.text = m'.text) : m = m' := by
  obtain ⟨hhead, hentries⟩ := cut_unique entryNeedle_dot m.single m'.single
    (textOf_follows m.entries) (textOf_follows m'.entries) h
  obtain ⟨head, entries, hsingle, hmarked⟩ := m
  obtain ⟨head', entries', hsingle', hmarked'⟩ := m'
  obtain rfl := hhead
  obtain rfl := textOf_inj hmarked hmarked' hentries
  rfl

/-! ## Every text can be cut -/

/-- The pieces between the `.entry `s. -/
def joined (pieces : List Text) : Text := pieces.flatMap (entryNeedle ++ ·)

theorem exists_pieces (t : Text) : ∃ head pieces, t = head ++ joined pieces ∧
    ¬ entryNeedle <:+: head ∧ ∀ w ∈ pieces, ¬ entryNeedle <:+: w := by
  induction hn : t.length using Nat.strongRecOn generalizing t with
  | ind n ih =>
    cases hfind : find entryNeedle t 0 with
    | none => exact ⟨t, [], (List.append_nil t).symm, find_eq_none.1 hfind, nofun⟩
    | some j =>
      obtain ⟨u, v, hfirst, -⟩ := findAux_sound hfind
      have hlen := congrArg List.length hfirst.text
      rw [List.drop_zero] at hlen
      simp only [List.length_append] at hlen
      have hpos : 0 < entryNeedle.length := by decide
      obtain ⟨head, pieces, rfl, hhead, hpieces⟩ := ih v.length (by omega) v rfl
      refine ⟨u, head :: pieces, ?_, ?_, ?_⟩
      · have htext := hfirst.text
        rw [List.drop_zero] at htext
        rw [htext, joined, joined, List.flatMap_cons, List.append_assoc]
      · -- an occurrence before the first
        rintro ⟨a, b, hab⟩
        have htext := hfirst.text
        rw [← hab] at htext
        have hle := hfirst.first a (b ++ (entryNeedle ++ (head ++ joined pieces)))
          (by rw [htext]; simp only [List.append_assoc])
        have hlen' := congrArg List.length hab
        simp only [List.length_append] at hlen'
        omega
      · intro w hw
        rcases List.mem_cons.1 hw with rfl | hw
        · exact hhead
        · exact hpieces w hw

/-- No name goes on to the next `.entry `. -/
def NamesEnd (t : Text) : Prop :=
  ∀ u w v, t = u ++ (entryNeedle ++ (w ++ (entryNeedle ++ v))) → ¬ entryNeedle <:+: w →
    (w.dropWhile isSpaceChar).dropWhile isNameChar ≠ []

theorem NamesEnd.behind {t z : Text} (h : NamesEnd (z ++ t)) : NamesEnd t := by
  rintro u w v rfl
  exact h (z ++ u) w v (by simp only [List.append_assoc])

theorem head_dropWhile {p : Char → Bool} (w : Text) : ∀ c ∈ (w.dropWhile p).head?, p c = false := by
  intro c hc
  have := List.head?_dropWhile_not p w
  rw [Option.mem_def] at hc
  rw [hc] at this
  simpa using this

theorem exists_entries (before : Text) {pieces : List Text}
    (hpieces : ∀ w ∈ pieces, ¬ entryNeedle <:+: w) (hend : NamesEnd (joined pieces)) :
    ∃ es, Marked before es ∧ textOf es = joined pieces := by
  induction pieces generalizing before with
  | nil => exact ⟨[], trivial, rfl⟩
  | cons w pieces ih =>
    have hw := hpieces w List.mem_cons_self
    let name := (w.dropWhile isSpaceChar).takeWhile isNameChar
    let rest := (w.dropWhile isSpaceChar).dropWhile isNameChar
    have hname : name ++ rest = w.dropWhile isSpaceChar := List.takeWhile_append_dropWhile
    let e : Entry :=
      { taken := !before.getLast?.any isEntryPrefix && !name.isEmpty
        visible := visibleWord.isSuffixOf before
        gap := w.takeWhile isSpaceChar
        name
        rest
        gap_space := fun c hc => List.mem_takeWhile_imp hc
        name_chars := fun c hc => List.mem_takeWhile_imp hc
        stop := head_dropWhile _
        gap_stop := fun hnil => by
          rw [hnil, List.nil_append] at hname
          rw [hname]
          exact head_dropWhile w
        single := by
          rw [hname]
          exact fun h => hw (h.trans (List.dropWhile_suffix _).isInfix) }
    have htail : e.tail = w := by
      change w.takeWhile isSpaceChar ++ (name ++ rest) = w
      rw [hname, List.takeWhile_append_dropWhile]
    have hjoined : joined (w :: pieces) = (entryNeedle ++ w) ++ joined pieces := List.flatMap_cons
    obtain ⟨es, hmarked, htext⟩ := ih e.text
      (fun w' hw' => hpieces w' (List.mem_cons_of_mem w hw')) (hjoined ▸ hend).behind
    refine ⟨e :: es, ⟨rfl, rfl, fun hr => ?_, hmarked⟩, ?_⟩
    · cases pieces with
      | nil =>
        cases es with
        | nil => rfl
        | cons f es => exact absurd htext (List.append_ne_nil_of_left_ne_nil f.text_ne _)
      | cons w' pieces =>
        refine absurd hr (hend [] w (w' ++ joined pieces) ?_ hw)
        simp only [joined, List.flatMap_cons, List.nil_append, List.append_assoc]
    · rw [textOf_cons, htext, Entry.text, htail, hjoined]

/-- A text is one of a module, unless a name goes on to the next `.entry `. -/
theorem exists_module {t : Text} (hend : NamesEnd t) : ∃ m : PtxModule, m.text = t := by
  obtain ⟨head, pieces, rfl, hhead, hpieces⟩ := exists_pieces t
  obtain ⟨es, hmarked, htext⟩ := exists_entries head hpieces hend.behind
  exact ⟨⟨head, es, hhead, hmarked⟩, by rw [PtxModule.text, htext]⟩

/-! ## The mark -/

theorem visible_suffix (X : Text) (e : Entry) :
    visibleWord <:+ X ++ e.text ↔ visibleWord <:+ e.text := by
  refine ⟨fun h => ?_, fun h => h.trans (List.suffix_append _ _)⟩
  rcases List.suffix_or_suffix_of_suffix h (List.suffix_append X e.text) with h | h
  · exact h
  · have hin : entryNeedle <:+: visibleWord := (List.prefix_append _ _).isInfix.trans h.isInfix
    exact absurd hin (by decide)

/-- The mark of an entry is the end of the text before it. -/
theorem marked_visible {X b : Text} {before after : List Entry} {f : Entry}
    (hb : X = [] ∨ ∃ e : Entry, b = e.text) (h : Marked b (before ++ f :: after)) :
    f.visible = true ↔ visibleWord <:+ X ++ (b ++ textOf before) := by
  induction before generalizing X b with
  | nil =>
    rw [textOf_nil, List.append_nil, h.2.1, List.isSuffixOf_iff_suffix]
    rcases hb with rfl | ⟨e, rfl⟩
    · rfl
    · exact (visible_suffix X e).symm
  | cons g before ih =>
    rw [textOf_cons, ← List.append_assoc]
    exact ih (.inr ⟨g, rfl⟩) h.2.2.2

theorem marked_rest {b : Text} {before after : List Entry} {f : Entry}
    (h : Marked b (before ++ f :: after)) : f.rest = [] → after = [] := by
  induction before generalizing b with
  | nil => exact h.2.2.1
  | cons g before ih => exact ih h.2.2.2

/-! ## What a search for a name finds -/

def markWord (mark : Bool) : Text := if mark then visibleWord else []

/-- The search for the name, with or without the mark, ends at the entry or within
its name. -/
structure Hit (mark : Bool) (name : Text) (f : Entry) : Prop where
  visible : mark = true → f.visible = true
  gap : f.gap = []
  name : name <+: f.name

theorem name_within {name n v w : Text} (hchars : ∀ c ∈ name, isNameChar c = true)
    (hw : ∀ c ∈ w.head?, isNameChar c = false) (h : name ++ v = n ++ w) : name <+: n := by
  rcases List.append_eq_append_iff.1 h with ⟨a, ha, -⟩ | ⟨a, ha, ha'⟩
  · exact ⟨a, ha.symm⟩
  · cases a with
    | nil => exact ⟨[], by rw [ha, List.append_nil, List.append_nil]⟩
    | cons c a =>
      have hc := hw c (by rw [ha']; rfl)
      rw [hchars c (by rw [ha]; exact List.mem_append_right n List.mem_cons_self)] at hc
      cases hc

/-- Where `.entry ` and a name occur. -/
theorem occurs_name {m : PtxModule} {mark : Bool} {name u v : Text} (hne : name ≠ [])
    (hchars : ∀ c ∈ name, isNameChar c = true) :
    m.text = u ++ ((markWord mark ++ (entryNeedle ++ name)) ++ v) ↔
      ∃ before f after, m.entries = before ++ f :: after ∧ Hit mark name f ∧
        u ++ markWord mark = m.head ++ textOf before ∧ name ++ v = f.tail ++ textOf after := by
  have hassoc : u ++ ((markWord mark ++ (entryNeedle ++ name)) ++ v) =
      (u ++ markWord mark) ++ (entryNeedle ++ (name ++ v)) := by
    simp only [List.append_assoc]
  rw [hassoc]
  constructor
  · intro h
    obtain ⟨before, f, after, hentries, hu, hv⟩ := occurs_entry m.single h
    have hmarked := hentries ▸ m.marked
    have hgap : f.gap = [] := by
      -- a name does not begin with a space
      cases hg : f.gap with
      | nil => rfl
      | cons c gap =>
        cases name with
        | nil => exact absurd rfl hne
        | cons d name =>
          rw [Entry.tail, hg] at hv
          have hcd := List.head_eq_of_cons_eq hv
          have hspace := f.gap_space c (hg ▸ List.mem_cons_self)
          rw [← hcd, nameChar_not_space (hchars d List.mem_cons_self)] at hspace
          cases hspace
    refine ⟨before, f, after, hentries, ⟨fun hm => ?_, hgap, ?_⟩, hu, hv⟩
    · rw [marked_visible (.inl rfl) hmarked, List.nil_append, ← hu, hm]
      exact List.suffix_append _ _
    · refine name_within hchars (stop_append (e := f) (t := textOf after) fun hr => ?_) (v := v) ?_
      · rw [marked_rest hmarked hr, textOf_nil]
      · rw [hv, Entry.tail, hgap, List.nil_append, List.append_assoc]
  · rintro ⟨before, f, after, hentries, hit, hu, hv⟩
    rw [hu, hv, PtxModule.text, hentries, textOf_append, textOf_cons, Entry.text]
    simp only [List.append_assoc]

theorem occurs_at_hit {m : PtxModule} {mark : Bool} {name : Text} {before after : List Entry}
    {f : Entry} (hentries : m.entries = before ++ f :: after) (h : Hit mark name f) :
    ∃ u v, m.text = u ++ ((markWord mark ++ (entryNeedle ++ name)) ++ v) ∧
      u ++ markWord mark = m.head ++ textOf before := by
  have hmarked := hentries ▸ m.marked
  obtain ⟨n, hn⟩ := h.name
  have hu : ∃ u, u ++ markWord mark = m.head ++ textOf before := by
    cases mark with
    | false => exact ⟨_, List.append_nil _⟩
    | true => exact (marked_visible (X := []) (.inl rfl) hmarked).1 (h.visible rfl)
  obtain ⟨u, hu⟩ := hu
  refine ⟨u, n ++ (f.rest ++ textOf after), ?_, hu⟩
  have hassoc : u ++ ((markWord mark ++ (entryNeedle ++ name)) ++ (n ++ (f.rest ++ textOf after))) =
      (u ++ markWord mark) ++ (entryNeedle ++ ((name ++ n) ++ (f.rest ++ textOf after))) := by
    simp only [List.append_assoc]
  rw [hassoc, hu, hn, PtxModule.text, hentries, textOf_append, textOf_cons, Entry.text, Entry.tail,
    h.gap]
  simp only [List.append_assoc, List.nil_append]

/-- A place in the text is one among the entries. -/
theorem place_inj {head : Text} {b a b' a' : List Entry} {e f : Entry} {k : Nat}
    (h : b ++ e :: a = b' ++ f :: a') (hk : k < e.text.length)
    (hplace : (head ++ textOf b').length = (head ++ textOf b).length + k) :
    k = 0 ∧ b' = b ∧ f = e := by
  rw [List.length_append, List.length_append] at hplace
  rcases List.append_eq_append_iff.1 h with ⟨c, rfl, hc⟩ | ⟨c, rfl, hc⟩
  · cases c with
    | nil =>
      rw [List.append_nil] at hplace ⊢
      exact ⟨by omega, rfl, (List.head_eq_of_cons_eq hc).symm⟩
    | cons g c =>
      obtain rfl := List.head_eq_of_cons_eq hc
      rw [textOf_append, textOf_cons, List.length_append, List.length_append] at hplace
      omega
  · cases c with
    | nil =>
      rw [List.append_nil] at hplace ⊢
      exact ⟨by omega, rfl, List.head_eq_of_cons_eq hc⟩
    | cons g c =>
      rw [textOf_append, textOf_cons, List.length_append, List.length_append] at hplace
      have := List.length_pos_of_ne_nil g.text_ne
      omega

section
variable {m : PtxModule} {mark : Bool} {name : Text}

/-- The search finds the first hit. -/
theorem find_name_some (hne : name ≠ []) (hchars : ∀ c ∈ name, isNameChar c = true) {j : Nat} :
    find (markWord mark ++ (entryNeedle ++ name)) m.text 0 = some j ↔
      ∃ before f after, m.entries = before ++ f :: after ∧ Hit mark name f ∧
        (∀ g ∈ before, ¬ Hit mark name g) ∧
        j + (markWord mark).length = (m.head ++ textOf before).length := by
  constructor
  · intro h
    obtain ⟨u, v, hfirst, rfl⟩ := findAux_sound h
    obtain ⟨before, f, after, hentries, hit, hu, -⟩ := (occurs_name hne hchars).1 hfirst.text
    refine ⟨before, f, after, hentries, hit, fun g hg hitg => ?_, ?_⟩
    · obtain ⟨b₁, b₂, rfl⟩ := List.append_of_mem hg
      rw [List.append_assoc] at hentries
      obtain ⟨u', v', htext, hu'⟩ := occurs_at_hit hentries hitg
      have hle := hfirst.first u' v' htext
      have hlen := congrArg List.length hu
      have hlen' := congrArg List.length hu'
      have := List.length_pos_of_ne_nil g.text_ne
      simp only [List.length_append, textOf_append, textOf_cons] at hlen hlen'
      omega
    · rw [← hu, List.length_append, Nat.zero_add]
  · rintro ⟨before, f, after, hentries, hit, hnone, hj⟩
    obtain ⟨u, v, htext, hu⟩ := occurs_at_hit hentries hit
    have hfirst : FirstAt (markWord mark ++ (entryNeedle ++ name)) u v m.text := by
      refine ⟨htext, fun u' v' htext' => ?_⟩
      obtain ⟨before', f', after', hentries', hit', hu', -⟩ := (occurs_name hne hchars).1 htext'
      have hlen := congrArg List.length hu
      have hlen' := congrArg List.length hu'
      rcases List.append_eq_append_iff.1 (hentries.symm.trans hentries') with ⟨c, rfl, -⟩ | ⟨c, rfl, hc⟩
      · simp only [List.length_append, textOf_append] at hlen hlen'
        omega
      · cases c with
        | nil =>
          rw [List.append_nil] at hlen
          rw [List.length_append] at hlen hlen'
          omega
        | cons g c =>
          obtain rfl := List.head_eq_of_cons_eq hc
          exact absurd hit' (hnone _ (List.mem_append_right _ List.mem_cons_self))
    have hfind := hfirst.findAux 0
    have hlen := congrArg List.length hu
    rw [List.length_append] at hlen
    rw [find, List.drop_zero, hfind, Nat.zero_add]
    congr 1
    omega

theorem find_name_none (hne : name ≠ []) (hchars : ∀ c ∈ name, isNameChar c = true) :
    find (markWord mark ++ (entryNeedle ++ name)) m.text 0 = none ↔
      ∀ f ∈ m.entries, ¬ Hit mark name f := by
  rw [find_eq_none]
  constructor
  · intro h f hf hit
    obtain ⟨before, after, hentries⟩ := List.append_of_mem hf
    obtain ⟨u, v, htext, -⟩ := occurs_at_hit hentries hit
    exact h ⟨u, v, by rw [htext, List.append_assoc]⟩
  · rintro h ⟨u, v, htext⟩
    rw [List.append_assoc] at htext
    obtain ⟨before, f, after, hentries, hit, -⟩ := (occurs_name hne hchars).1 htext.symm
    exact h f (hentries ▸ List.mem_append_right before List.mem_cons_self) hit

end

/-- The search for the name of `e` ends at `e`. -/
structure FirstFor (before : List Entry) (e : Entry) (after : List Entry) : Prop where
  gap : e.gap = []
  before : ∀ f ∈ before, ¬ Hit e.visible e.name f
  after : e.visible = false → ∀ f ∈ after, ¬ Hit true e.name f

/-- The text up to the end of the entry's name. -/
def PtxModule.upTo (m : PtxModule) (before : List Entry) (e : Entry) : Text :=
  m.head ++ (textOf before ++ (entryNeedle ++ (e.gap ++ e.name)))

theorem PtxModule.text_split {m : PtxModule} {before after : List Entry} {e : Entry}
    (h : m.entries = before ++ e :: after) :
    m.text = m.upTo before e ++ (e.rest ++ textOf after) := by
  rw [PtxModule.text, h, textOf_append, textOf_cons, PtxModule.upTo, Entry.text, Entry.tail]
  simp only [List.append_assoc]

section
variable {m : PtxModule} {before after : List Entry} {e : Entry}

theorem length_upTo : (m.upTo before e).length =
    (m.head ++ textOf before).length + entryNeedle.length + e.gap.length + e.name.length := by
  simp only [PtxModule.upTo, List.length_append]
  omega

/-- A search that ends at the end of the entry's name has found the entry. -/
theorem hit_of_end (h : m.entries = before ++ e :: after) (hne : e.name ≠ []) {mark : Bool} {pos : Nat}
    (hfind : find (markWord mark ++ (entryNeedle ++ e.name)) m.text 0 = some pos)
    (hend : pos + (markWord mark ++ (entryNeedle ++ e.name)).length = (m.upTo before e).length) :
    Hit mark e.name e ∧ ∀ g ∈ before, ¬ Hit mark e.name g := by
  obtain ⟨before', f, after', hentries, hit, hnone, hpos⟩ :=
    (find_name_some hne e.name_chars).1 hfind
  rw [length_upTo, List.length_append, List.length_append] at hend
  have hplace : (m.head ++ textOf before').length = (m.head ++ textOf before).length + e.gap.length := by
    omega
  have hgap : e.gap.length < e.text.length := by
    rw [Entry.text, Entry.tail, entryNeedle_eq]
    simp only [List.length_append, List.length_cons]
    omega
  obtain ⟨-, rfl, rfl⟩ := place_inj (h.symm.trans hentries) hgap hplace
  exact ⟨hit, hnone⟩

theorem end_of_hit (h : m.entries = before ++ e :: after) (hne : e.name ≠ []) {mark : Bool}
    (hit : Hit mark e.name e) (hnone : ∀ g ∈ before, ¬ Hit mark e.name g) :
    ∃ pos, find (markWord mark ++ (entryNeedle ++ e.name)) m.text 0 = some pos ∧
      pos + (markWord mark ++ (entryNeedle ++ e.name)).length = (m.upTo before e).length := by
  obtain ⟨u, v, -, hu⟩ := occurs_at_hit h hit
  have hlen := congrArg List.length hu
  rw [List.length_append] at hlen
  refine ⟨u.length, (find_name_some hne e.name_chars).2 ⟨before, e, after, h, hit, hnone, hlen⟩, ?_⟩
  rw [length_upTo, ← hlen, hit.gap, List.length_append, List.length_append, List.length_nil]
  omega

theorem findEntryName_eq (s name : Text) : findEntryName s name =
    match find (markWord true ++ (entryNeedle ++ name)) s 0 with
    | some pos => some (pos + (markWord true ++ (entryNeedle ++ name)).length)
    | none =>
      match find (markWord false ++ (entryNeedle ++ name)) s 0 with
      | some pos => some (pos + (markWord false ++ (entryNeedle ++ name)).length)
      | none => none := rfl

theorem findEntryName_iff (h : m.entries = before ++ e :: after) (hne : e.name ≠ []) :
    findEntryName m.text e.name = some (m.upTo before e).length ↔ FirstFor before e after := by
  have hunmarked : ∀ {f : Entry}, Hit true e.name f → Hit false e.name f := fun hit =>
    ⟨nofun, hit.gap, hit.name⟩
  rw [findEntryName_eq]
  constructor
  · intro hend
    cases hmarked : find (markWord true ++ (entryNeedle ++ e.name)) m.text 0 with
    | some pos =>
      rw [hmarked] at hend
      obtain ⟨hit, hnone⟩ := hit_of_end h hne hmarked (Option.some.inj hend)
      have hvisible := hit.visible rfl
      refine ⟨hit.gap, hvisible ▸ hnone, fun hf => ?_⟩
      rw [hvisible] at hf
      cases hf
    | none =>
      rw [hmarked] at hend
      rw [find_name_none hne e.name_chars] at hmarked
      cases hplain : find (markWord false ++ (entryNeedle ++ e.name)) m.text 0 with
      | none =>
        rw [hplain] at hend
        cases hend
      | some pos =>
        rw [hplain] at hend
        obtain ⟨hit, hnone⟩ := hit_of_end h hne hplain (Option.some.inj hend)
        have hself : e ∈ m.entries := h ▸ List.mem_append_right before List.mem_cons_self
        have hvisible : e.visible = false := by
          rw [← Bool.not_eq_true]
          exact fun hv => hmarked e hself ⟨fun _ => hv, hit.gap, hit.name⟩
        refine ⟨hit.gap, hvisible ▸ hnone, fun _ f hf => hmarked f ?_⟩
        rw [h]
        exact List.mem_append_right before (List.mem_cons_of_mem e hf)
  · intro hfirst
    have hself : ∀ mark, (mark = true → e.visible = true) → Hit mark e.name e := fun _ hv =>
      ⟨hv, hfirst.gap, List.prefix_refl _⟩
    cases hvisible : e.visible with
    | true =>
      obtain ⟨pos, hfind, hend⟩ := end_of_hit h hne (hself true fun _ => hvisible)
        (hvisible ▸ hfirst.before)
      rw [hfind]
      exact congrArg some hend
    | false =>
      have hbefore := hvisible ▸ hfirst.before
      have hmarked : find (markWord true ++ (entryNeedle ++ e.name)) m.text 0 = none := by
        rw [find_name_none hne e.name_chars, h]
        intro f hf
        rcases List.mem_append.1 hf with hf | hf
        · exact fun hit => hbefore f hf (hunmarked hit)
        rcases List.mem_cons.1 hf with rfl | hf
        · intro hit
          have := hit.visible rfl
          rw [hvisible] at this
          cases this
        · exact hfirst.after hvisible f hf
      obtain ⟨pos, hfind, hend⟩ := end_of_hit h hne (hself false nofun) hbefore
      rw [hmarked, hfind]
      exact congrArg some hend

end

end Xsched.HbSplit
