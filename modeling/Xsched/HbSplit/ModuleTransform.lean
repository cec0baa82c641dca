import Mathlib.Data.List.Forall2
import Xsched.HbSplit.EntryTransform

/-!
# The transform of a module

`TransformModulePtx` goes through the entries of a PTX text. It counts the
parameters in the original text, transforms the entries that the environment
verifies one after the other in a running text, and keeps a record for each name.
Each step takes a text and a name, and searches for the entry again.

**The break.** An entry whose name begins with the name that is searched for is
found in its place (`EntryTransform`): its parameters are counted, it is given the
offsets, and the record of the other says that this has them.

**Result**
* `names_resolve_iff`: every name that `CollectEntryNames` reads resolves to its
  entry, and every record says of its entry how many parameters it has and whether
  it has the offsets in the transformed text, if and only if every entry that is
  read stands apart from the others (`Apart`) and none has the offsets before.
-/
namespace Xsched.HbSplit

open Registry (KernelTransformRecord ModuleInfo CUmodule countParamsForKernel)

/-! ## The verified names -/

/-- The loop over the characters.
mirrors platforms/cuda/hal/src/hb_split/backend.cpp:481-491 -/
def splitNames : Text → Text → List Text
  | current, [] => if current = [] then [] else [current]
  | current, c :: t =>
    if c = ',' then (if current = [] then [] else [current]) ++ splitNames [] t
    else if isSpace c then splitNames current t
    else splitNames (current ++ [c]) t

/-- The names, and whether all are verified. `getenv` answers the environment.
mirrors platforms/cuda/hal/src/hb_split/backend.cpp:473-496 -/
def verifiedKernelNames (getenv : String → Option Text) : List Text × Bool :=
  let first := getenv "UXSCHED_HB_VERIFIED_KERNELS"
  let env := if first.getD [] = [] then getenv "HB_SPLIT_KERNELS" else first
  let out := splitNames [] (env.getD [])
  if ['*'] ∈ out then ([], true) else (out, false)

/-! ## The loop -/

/-- `records[name] = rec` -/
def assign (records : List (Text × KernelTransformRecord)) (name : Text) (r : KernelTransformRecord) :
    List (Text × KernelTransformRecord) :=
  (name, r) :: records.filter fun p => p.1 ≠ name

structure Transforming where
  transformed : Text
  records : List (Text × KernelTransformRecord)

/-- The record of a kernel that is not transformed. -/
def untried (reason : String) (count : Nat) : KernelTransformRecord where
  capability := {
    ptxAvailable := true
    supportsKernelParams := true
    supportsExtra := false
    fallbackReason := reason.toList }
  originalParamCount := count

/-- mirrors platforms/cuda/hal/src/hb_split/backend.cpp:554-581 -/
def attempted (count : Nat) (tr : PtxTransformResult) : KernelTransformRecord where
  capability := {
    ptxAvailable := true
    transformAttempted := true
    transformSucceeded := tr.modified
    supportsOffsetX := tr.supportsOffsetX
    supportsOffsetY := tr.supportsOffsetY
    supportsOffsetZ := tr.supportsOffsetZ
    crossBlockSync := tr.crossBlockSync
    supportsKernelParams := true
    supportsExtra := false
    splittable := tr.modified
    fallbackReason :=
      if tr.modified then []
      else if tr.diagnostic = "" then "TRANSFORM_FAILED".toList else tr.diagnostic.toList }
  originalParamCount := count

/-- mirrors platforms/cuda/hal/src/hb_split/backend.cpp:535-582 -/
def transformEntry (verified : List Text) (wildcard : Bool) (ptx : Text) (s : Transforming)
    (name : Text) : Transforming :=
  match countParamsForKernel ptx name with
  | none => { s with records := assign s.records name (untried "PARAM_COUNT_UNAVAILABLE" 0) }
  | some count =>
    if !wildcard && !verified.contains name then
      { s with records := assign s.records name (untried "KERNEL_NOT_VERIFIED" count) }
    else
      let tr := transformKernelPtx s.transformed name
      { transformed := if tr.modified then tr.ptxText else s.transformed
        records := assign s.records name (attempted count tr) }

/-- The transformed text and the records, before the text is loaded. -/
def transformEntries (getenv : String → Option Text) (ptx : Text) : Transforming :=
  let (verified, wildcard) := verifiedKernelNames getenv
  if !wildcard && verified.isEmpty then ⟨ptx, []⟩
  else (collectEntryNames ptx).foldl (transformEntry verified wildcard ptx) ⟨ptx, []⟩

def loadFailed (r : KernelTransformRecord) : KernelTransformRecord :=
  { r with
    capability := { r.capability with
      splittable := false
      fallbackReason := "TRANSFORMED_MODULE_LOAD_FAILED".toList } }

/-- `load` answers `cuModuleLoadDataEx`.
mirrors platforms/cuda/hal/src/hb_split/backend.cpp:513-609 -/
def transformModulePtx (getenv : String → Option Text) (load : Text → Option CUmodule) (serial : Nat)
    (ptx : Text) : ModuleInfo :=
  let s := transformEntries getenv ptx
  let info : ModuleInfo :=
    { ptxAvailable := true
      originalPtx := some ptx
      ptxBytes := ptx.length
      transformedModule := none
      records := s.records
      serial }
  if s.records.any fun p => p.2.capability.transformSucceeded then
    match load s.transformed with
    | some transformedModule => { info with transformedModule }
    | none => { info with records := s.records.map fun p => (p.1, loadFailed p.2) }
  else info

/-! ## What is to hold -/

/-- Of each entry that is read, the records say how many parameters it has, and
whether it has the offsets in the transformed text. -/
structure Recorded (m m' : PtxModule) (records : List (Text × KernelTransformRecord)) : Prop where
  names : ∀ p ∈ records, p.1 ∈ m.names
  entries : List.Forall₂ (fun e e' => e'.taken = e.taken ∧ e'.name = e.name ∧
    (e.taken = true → ∀ r, (e.name, r) ∈ records →
      r.originalParamCount = e.paramCount.getD 0 ∧
        (r.capability.transformSucceeded = true ↔ e'.offsets = true))) m.entries m'.entries

structure NamesResolve (m : PtxModule) : Prop where
  resolves : ∀ before e after, m.entries = before ++ e :: after → e.taken = true →
    Resolves m before e after
  recorded : ∀ getenv load serial, ∃ m' : PtxModule,
    m'.text = (transformEntries getenv m.text).transformed ∧
      Recorded m m' (transformModulePtx getenv load serial m.text).records

/-! ## An entry transformed -/

/-- The entry after its turn; `tried` tells what the environment verifies. -/
structure Becomes (tried : Text → Bool) (e e' : Entry) : Prop extends Like e e' where
  rest : e'.rest = if e.taken && tried e.name then e.transformed.getD e.rest else e.rest

theorem becomes_of_untaken {tried : Text → Bool} {e : Entry} (h : e.taken = false) :
    Becomes tried e e where
  toLike := .rfl
  rest := by rw [h]; rfl

theorem hasOffsets_added (params : Text) : hasOffsets (params ++ addedParams params) = true := by
  have hin : ∀ {w : Text}, w <:+: offsetParams → w <:+: params ++ addedParams params := fun hw =>
    List.infix_append_of_infix_right (List.infix_append_of_infix_right hw)
  obtain ⟨-, -, -, -, -, hx, hy, hz⟩ := offsetParams_text
  simp only [hasOffsets, Bool.and_eq_true, contains_iff]
  exact ⟨⟨hin hx, hin hy⟩, hin hz⟩

theorem parts_of_transformed {e : Entry} {r : Text} (h : e.transformed = some r) :
    ∃ l b, e.paramList = some l ∧ hasOffsets l.inner = false ∧ b.Cuts '{' '}' l.behind ∧
      r = Entry.withOffsets l b := by
  obtain ⟨p, hp, rfl⟩ := Option.map_eq_some_iff.1 h
  have hparts := (Option.filter_eq_some_iff.1 hp).1
  cases hl : e.paramList with
  | none => rw [parts_of_none hl] at hparts; cases hparts
  | some l =>
    rw [parts_of_some hl] at hparts
    split at hparts
    · cases hparts
    next ho =>
    obtain ⟨b, hb, rfl⟩ := Option.map_eq_some_iff.1 hparts
    exact ⟨l, b, rfl, by simpa using ho, cuts_of_group (by decide) hb, rfl⟩

/-- A transformed entry has the offsets. -/
theorem offsets_of_transformed {e e' : Entry} {r : Text} (h : e.transformed = some r)
    (hname : e'.name = e.name) (hrest : e'.rest = r) : e'.offsets = true := by
  obtain ⟨l, b, hl, -, -, rfl⟩ := parts_of_transformed h
  have hcuts := paramList_cuts hl
  have hgroup : Group.Cuts '(' ')' e'.rest ⟨l.before, l.inner ++ addedParams l.inner,
      b.before ++ '{' :: (offsetHeader ++ rewriteAxes axes true b.inner ++ '}' :: b.behind)⟩ := by
    refine ⟨hrest, hcuts.before, ?_⟩
    rw [depthRun_append, hcuts.balanced]
    exact depthRun_added l.inner 1
  have hbrace := (Option.filter_eq_some_iff.1 hl).2
  have hlist : e'.paramList = some ⟨l.before, l.inner ++ addedParams l.inner,
      b.before ++ '{' :: (offsetHeader ++ rewriteAxes axes true b.inner ++ '}' :: b.behind)⟩ := by
    rw [Entry.paramList, hgroup.group (by decide), Option.filter_some, hname, if_pos hbrace]
  rw [Entry.offsets, hlist]
  exact hasOffsets_added l.inner

theorem offsets_like {e e' : Entry} (hname : e'.name = e.name) (hrest : e'.rest = e.rest) :
    e'.offsets = e.offsets := by
  rw [Entry.offsets, Entry.paramList, hname, hrest]
  rfl

theorem transformed_of_offsets {e : Entry} (h : e.offsets = true) : e.transformed = none := by
  obtain ⟨l, hl, ho⟩ := (Option.any_eq_true _ _).1 h
  rw [Entry.transformed, parts_of_some hl, if_pos ho]
  rfl

/-- An entry gets the offsets with its transform. -/
theorem Becomes.offsets {tried : Text → Bool} {e e' : Entry} (h : Becomes tried e e')
    (ht : e.taken = true) (hnone : e.offsets = false) :
    e'.offsets = (tried e.name && e.transformed.isSome) := by
  have hrest := h.rest
  rw [ht, Bool.true_and] at hrest
  cases htried : tried e.name with
  | false =>
    rw [htried] at hrest
    rw [offsets_like h.name hrest, hnone]
    rfl
  | true =>
    rw [htried, if_pos rfl] at hrest
    cases hr : e.transformed with
    | none =>
      rw [hr] at hrest
      rw [offsets_like h.name hrest, hnone]
      rfl
    | some r =>
      rw [hr] at hrest
      exact offsets_of_transformed hr h.name hrest

/-- The entry put in the place of the original. -/
theorem exists_becomes {m : PtxModule} {before after : List Entry} {e : Entry}
    (h : m.entries = before ++ e :: after) (tried : Text → Bool) :
    ∃ (m' : PtxModule) (e' : Entry), m'.head = m.head ∧ m'.entries = before ++ e' :: after ∧
      Becomes tried e e' := by
  cases htried : e.taken && tried e.name with
  | false => exact ⟨m, e, rfl, h, .rfl, by rw [htried]; rfl⟩
  | true =>
    cases hr : e.transformed with
    | none => exact ⟨m, e, rfl, h, .rfl, by rw [hr]; exact (ite_self _).symm⟩
    | some r =>
      obtain ⟨l, b, hl, -, hb, rfl⟩ := parts_of_transformed hr
      have hcuts := paramList_cuts hl
      obtain ⟨m', e', hhead, hentries, hlike, hrest⟩ := exists_withRest h
        (r := Entry.withOffsets l b)
        (x := l.before ++ '(' :: (l.inner ++ ')' :: (b.before ++ '{' :: b.inner)))
        (z := l.before ++ '(' :: (l.inner ++ addedParams l.inner ++ ')' ::
          (b.before ++ '{' :: (offsetHeader ++ rewriteAxes axes true b.inner))))
        (y := b.behind) (c := '}')
        (by rw [hcuts.text, hb.text]; simp only [List.append_assoc, List.cons_append])
        (by simp only [Entry.withOffsets, List.append_assoc, List.cons_append])
        (by decide)
        (by rw [hcuts.text, Entry.withOffsets, List.head?_append, List.head?_append]; rfl)
        (needle_of_withOffsets hcuts hb)
      refine ⟨m', e', hhead, hentries, hlike, ?_⟩
      rw [htried, if_pos rfl, hr, hrest]
      rfl

/-! ## Entries that stand apart -/

/-- Every entry that is read stands apart. -/
def AllApart (m : PtxModule) : Prop :=
  ∀ before e after, m.entries = before ++ e :: after → e.taken = true → Apart before e after

theorem hit_like {mark : Bool} {name : Text} {done done' : List Entry}
    (h : List.Forall₂ Like done done') (hnone : ∀ f ∈ done, ¬ Hit mark name f) :
    ∀ f ∈ done', ¬ Hit mark name f := by
  induction h with
  | nil => exact nofun
  | @cons e e' es es' hlike _ ih =>
    intro f hf hit
    rcases List.mem_cons.1 hf with rfl | hf
    · refine hnone e List.mem_cons_self ⟨fun hm => ?_, ?_, ?_⟩
      · rw [← hlike.visible]
        exact hit.visible hm
      · rw [← hlike.gap]
        exact hit.gap
      · rw [← hlike.name]
        exact hit.name
    · exact ih (fun g hg => hnone g (List.mem_cons_of_mem e hg)) f hf hit

/-- What was done to the entries before changes nothing for the entry. -/
theorem Apart.like {done done' after : List Entry} {e : Entry} (h : Apart done e after)
    (hdone : List.Forall₂ Like done done') : Apart done' e after where
  first := ⟨h.first.gap, hit_like hdone h.first.before, h.first.after⟩
  list := h.list
  body := h.body

/-- Entries that stand apart have different names. -/
theorem AllApart.name_ne {m : PtxModule} (h : AllApart m) {before after : List Entry} {e f : Entry}
    (hentries : m.entries = before ++ e :: after) (ht : e.taken = true) (hf : f ∈ before)
    (htf : f.taken = true) : f.name ≠ e.name := by
  intro hname
  have hfirst := (h before e after hentries ht).first
  obtain ⟨b₁, b₂, rfl⟩ := List.append_of_mem hf
  rw [List.append_assoc] at hentries
  have hfirst' := (h b₁ f (b₂ ++ e :: after) hentries htf).first
  cases hv : f.visible with
  | true => exact hfirst.before f hf ⟨fun _ => hv, hfirst'.gap, by rw [hname]⟩
  | false =>
    cases hve : e.visible with
    | false =>
      refine hfirst.before f hf ⟨fun hm => ?_, hfirst'.gap, by rw [hname]⟩
      rw [hve] at hm
      cases hm
    | true =>
      -- the search prefers the visible one
      refine hfirst'.after hv e (List.mem_append_right b₂ List.mem_cons_self) ?_
      exact ⟨fun _ => hve, hfirst.gap, by rw [hname]⟩

/-! ## The records -/

theorem mem_assign {records : List (Text × KernelTransformRecord)} {name : Text}
    {r : KernelTransformRecord} {p : Text × KernelTransformRecord} :
    p ∈ assign records name r ↔ p = (name, r) ∨ p ∈ records ∧ p.1 ≠ name := by
  rw [assign, List.mem_cons, List.mem_filter, decide_eq_true_eq]

/-- What a record says of its entry. -/
structure Tells (tried : Text → Bool) (e : Entry) (r : KernelTransformRecord) : Prop where
  count : r.originalParamCount = e.paramCount.getD 0
  succeeded : r.capability.transformSucceeded = (tried e.name && e.transformed.isSome)

/-- The records of the entries whose turn it was. -/
structure Told (tried : Text → Bool) (done : List Entry)
    (records : List (Text × KernelTransformRecord)) : Prop where
  named : ∀ p ∈ records, ∃ e ∈ done, e.taken = true ∧ e.name = p.1
  some : ∀ e ∈ done, e.taken = true → ∃ r, (e.name, r) ∈ records
  tells : ∀ e ∈ done, e.taken = true → ∀ r, (e.name, r) ∈ records → Tells tried e r

theorem told_nil {tried : Text → Bool} : Told tried [] [] where
  named _ hp := absurd hp List.not_mem_nil
  some _ he := absurd he List.not_mem_nil
  tells _ he := absurd he List.not_mem_nil

theorem Told.untaken {tried : Text → Bool} {done : List Entry} {e : Entry}
    {records : List (Text × KernelTransformRecord)} (h : Told tried done records)
    (he : e.taken = false) : Told tried (done ++ [e]) records := by
  have hmem : ∀ f ∈ done ++ [e], f.taken = true → f ∈ done := by
    intro f hf htf
    rcases List.mem_append.1 hf with hf | hf
    · exact hf
    · rw [List.mem_singleton.1 hf, he] at htf
      cases htf
  refine ⟨fun p hp => ?_, fun f hf htf => h.some f (hmem f hf htf) htf,
    fun f hf htf => h.tells f (hmem f hf htf) htf⟩
  obtain ⟨f, hf, hrest⟩ := h.named p hp
  exact ⟨f, List.mem_append_left [e] hf, hrest⟩

theorem Told.assign {tried : Text → Bool} {done : List Entry} {e : Entry}
    {records : List (Text × KernelTransformRecord)} (h : Told tried done records)
    (he : e.taken = true) (hne : ∀ f ∈ done, f.taken = true → f.name ≠ e.name)
    {r : KernelTransformRecord} (hr : Tells tried e r) :
    Told tried (done ++ [e]) (assign records e.name r) := by
  refine ⟨fun p hp => ?_, fun f hf htf => ?_, fun f hf htf r' hr' => ?_⟩
  · rcases mem_assign.1 hp with rfl | ⟨hp, -⟩
    · exact ⟨e, List.mem_append_right done (List.mem_singleton_self e), he, rfl⟩
    · obtain ⟨f, hf, hrest⟩ := h.named p hp
      exact ⟨f, List.mem_append_left [e] hf, hrest⟩
  · rcases List.mem_append.1 hf with hf | hf
    · obtain ⟨r', hr'⟩ := h.some f hf htf
      exact ⟨r', mem_assign.2 (.inr ⟨hr', hne f hf htf⟩)⟩
    · obtain rfl := List.mem_singleton.1 hf
      exact ⟨r, mem_assign.2 (.inl rfl)⟩
  · rcases List.mem_append.1 hf with hf | hf
    · rcases mem_assign.1 hr' with heq | ⟨hr', -⟩
      · exact absurd (Prod.mk.inj heq).1 (hne f hf htf)
      · exact h.tells f hf htf r' hr'
    · obtain rfl := List.mem_singleton.1 hf
      rcases mem_assign.1 hr' with heq | ⟨-, hname⟩
      · rw [(Prod.mk.inj heq).2]
        exact hr
      · exact absurd rfl hname

/-! ## One turn -/

/-- The loop between two entries. -/
structure Running (m : PtxModule) (tried : Text → Bool) (done todo : List Entry)
    (s : Transforming) : Prop where
  entries : m.entries = done ++ todo
  text : ∃ (m' : PtxModule) (done' : List Entry), m'.head = m.head ∧ m'.entries = done' ++ todo ∧
    List.Forall₂ (Becomes tried) done done' ∧ s.transformed = m'.text
  told : Told tried done s.records

theorem paramCount_none {e : Entry} (h : e.paramCount = none) : e.transformed = none := by
  rw [Entry.paramCount, Option.map_eq_none_iff] at h
  rw [Entry.transformed, parts_of_none h]
  rfl

/-- The turn of an entry that is read. -/
theorem Running.taken {m : PtxModule} {verified : List Text} {wildcard : Bool}
    {done todo : List Entry} {e : Entry} {s : Transforming} (hall : AllApart m)
    (h : Running m (fun name => wildcard || verified.contains name) done (e :: todo) s)
    (ht : e.taken = true) :
    Running m (fun name => wildcard || verified.contains name) (done ++ [e]) todo
      (transformEntry verified wildcard m.text s e.name) := by
  obtain ⟨hentries, ⟨m', done', hhead, hentries', hdone, htext⟩, htold⟩ := h
  have hmarked : Marked m.head (done ++ e :: todo) := hentries ▸ m.marked
  have hne := taken_name hmarked ht
  have hap := hall done e todo hentries ht
  have hcount := (resolves_of_apart hentries hne hap).count
  have hresolves := resolves_of_apart hentries' hne
    (hap.like (hdone.imp fun _ _ hb => hb.toLike))
  have hnames : ∀ f ∈ done, f.taken = true → f.name ≠ e.name := fun f hf htf =>
    hall.name_ne hentries ht hf htf
  -- the text after the turn
  obtain ⟨m'', e', hhead', hentries'', hbecomes⟩ :=
    exists_becomes hentries' fun name => wildcard || verified.contains name
  have hsame : e'.rest = e.rest → s.transformed = m''.text := fun hrest => by
    rw [htext, PtxModule.text_split hentries', PtxModule.text_split hentries'',
      upTo_like hhead' hbecomes.toLike, hrest]
  have hrest := hbecomes.rest
  rw [ht, Bool.true_and] at hrest
  have hassoc : m''.entries = (done' ++ [e']) ++ todo := by
    rw [hentries'', List.append_assoc]
    rfl
  have hdone' := List.rel_append hdone (List.Forall₂.cons hbecomes .nil)
  have hfinish : ∀ s' : Transforming, s'.transformed = m''.text →
      Told (fun name => wildcard || verified.contains name) (done ++ [e]) s'.records →
      Running m (fun name => wildcard || verified.contains name) (done ++ [e]) todo s' :=
    fun s' htext' htold' => ⟨by rw [hentries, List.append_assoc]; rfl,
      ⟨m'', done' ++ [e'], hhead'.trans hhead, hassoc, hdone', htext'⟩, htold'⟩
  unfold transformEntry
  rw [hcount]
  cases hc : e.paramCount with
  | none =>
    have hnone := paramCount_none hc
    refine hfinish _ (hsame ?_) (htold.assign ht hnames ⟨by rw [hc]; rfl, by rw [hnone]; simp [untried]⟩)
    rw [hrest, hnone]
    exact ite_self _
  | some count =>
    dsimp only
    cases htried : (wildcard || verified.contains e.name) with
    | false =>
      obtain ⟨hw, hv⟩ := Bool.or_eq_false_iff.1 htried
      rw [if_pos (by rw [hw, hv]; rfl)]
      refine hfinish _ (hsame ?_) (htold.assign ht hnames ⟨by rw [hc]; rfl, ?_⟩)
      · rw [hrest, htried]
        rfl
      · rw [htried]
        rfl
    | true =>
      have hcond : ¬ (!wildcard && !verified.contains e.name) = true := by
        intro hcond
        rw [Bool.and_eq_true, Bool.not_eq_true', Bool.not_eq_true'] at hcond
        rw [hcond.1, hcond.2] at htried
        cases htried
      rw [if_neg hcond, htext]
      refine hfinish _ ?_ (htold.assign ht hnames ⟨by rw [hc]; rfl, ?_⟩)
      · dsimp only
        rw [hresolves.modified]
        rw [htried, if_pos rfl] at hrest
        cases hr : e.transformed with
        | none =>
          rw [hr] at hrest
          rw [← htext]
          exact hsame hrest
        | some r =>
          rw [hr] at hrest
          have hout := hresolves.ptxText
          rw [hr] at hout
          rw [Option.isSome_some, if_pos rfl, hout, PtxModule.text_split hentries'',
            upTo_like hhead' hbecomes.toLike, hrest]
      · rw [htried]
        exact hresolves.modified

theorem Running.untaken {m : PtxModule} {tried : Text → Bool} {done todo : List Entry} {e : Entry}
    {s : Transforming} (h : Running m tried done (e :: todo) s) (ht : e.taken = false) :
    Running m tried (done ++ [e]) todo s := by
  obtain ⟨hentries, ⟨m', done', hhead, hentries', hdone, htext⟩, htold⟩ := h
  refine ⟨by rw [hentries, List.append_assoc]; rfl, ⟨m', done' ++ [e], hhead, ?_, ?_, htext⟩,
    htold.untaken ht⟩
  · rw [hentries', List.append_assoc]
    rfl
  · exact List.rel_append hdone (List.Forall₂.cons (becomes_of_untaken ht) .nil)

/-! ## The loop -/

theorem Running.loop {m : PtxModule} {verified : List Text} {wildcard : Bool} (hall : AllApart m)
    {done todo : List Entry} {s : Transforming}
    (h : Running m (fun name => wildcard || verified.contains name) done todo s) :
    Running m (fun name => wildcard || verified.contains name) m.entries []
      (((todo.filter Entry.taken).map Entry.name).foldl (transformEntry verified wildcard m.text) s) := by
  induction todo generalizing done s with
  | nil =>
    have hdone : m.entries = done := h.entries.trans (List.append_nil done)
    rw [hdone]
    exact h
  | cons e todo ih =>
    cases ht : e.taken with
    | true =>
      rw [List.filter_cons_of_pos ht]
      exact ih (h.taken hall ht)
    | false =>
      rw [List.filter_cons_of_neg (by rw [ht]; exact Bool.false_ne_true)]
      exact ih (h.untaken ht)

/-- What the loop leaves, where the environment verifies something. -/
theorem running_entries {m : PtxModule} (hall : AllApart m) {getenv : String → Option Text}
    {verified : List Text} {wildcard : Bool}
    (henv : verifiedKernelNames getenv = (verified, wildcard))
    (hsome : (!wildcard && verified.isEmpty) = false) :
    Running m (fun name => wildcard || verified.contains name) m.entries []
      (transformEntries getenv m.text) := by
  have hstart : Running m (fun name => wildcard || verified.contains name) [] m.entries
      ⟨m.text, []⟩ :=
    ⟨rfl, ⟨m, [], rfl, rfl, .nil, rfl⟩, told_nil⟩
  have hentries : transformEntries getenv m.text =
      m.names.foldl (transformEntry verified wildcard m.text) ⟨m.text, []⟩ := by
    unfold transformEntries
    rw [henv, collectEntryNames_text]
    dsimp only
    rw [hsome, if_neg Bool.false_ne_true]
  rw [hentries, PtxModule.names]
  exact hstart.loop hall

theorem mem_module_records {getenv : String → Option Text} {load : Text → Option CUmodule}
    {serial : Nat} {ptx : Text} {p : Text × KernelTransformRecord}
    (h : p ∈ (transformModulePtx getenv load serial ptx).records) :
    ∃ r, (p.1, r) ∈ (transformEntries getenv ptx).records ∧
      p.2.originalParamCount = r.originalParamCount ∧
      p.2.capability.transformSucceeded = r.capability.transformSucceeded := by
  unfold transformModulePtx at h
  dsimp only at h
  split at h
  · split at h
    · exact ⟨p.2, h, rfl, rfl⟩
    · obtain ⟨q, hq, rfl⟩ := List.mem_map.1 h
      exact ⟨q.2, hq, rfl, rfl⟩
  · exact ⟨p.2, h, rfl, rfl⟩

theorem module_records {getenv : String → Option Text} {serial : Nat} {ptx : Text} :
    (transformModulePtx getenv (fun _ => some 0) serial ptx).records =
      (transformEntries getenv ptx).records := by
  unfold transformModulePtx
  dsimp only
  split <;> rfl

theorem exists_both {α β : Type} {R S : α → β → Prop} {l : List α} {l' : List β}
    (h : List.Forall₂ R l l') (h' : List.Forall₂ S l l') {a : α} (ha : a ∈ l) :
    ∃ b, R a b ∧ S a b := by
  induction h with
  | nil => cases ha
  | cons hr _ ih =>
    obtain _ | ⟨hs, hrest⟩ := h'
    rcases List.mem_cons.1 ha with rfl | ha
    · exact ⟨_, hr, hs⟩
    · exact ih hrest ha

/-! ## The result -/

theorem recorded_of_apart {m : PtxModule} (hall : AllApart m)
    (hnone : ∀ e ∈ m.entries, e.taken = true → e.offsets = false) (getenv : String → Option Text)
    (load : Text → Option CUmodule) (serial : Nat) :
    ∃ m' : PtxModule, m'.text = (transformEntries getenv m.text).transformed ∧
      Recorded m m' (transformModulePtx getenv load serial m.text).records := by
  cases hsome : (!(verifiedKernelNames getenv).2 && (verifiedKernelNames getenv).1.isEmpty) with
  | true =>
    -- nothing is verified, and there is no record
    have hempty : transformEntries getenv m.text = ⟨m.text, []⟩ := by
      unfold transformEntries
      exact if_pos hsome
    have hrecord : ∀ p, p ∉ (transformModulePtx getenv load serial m.text).records := by
      intro p hp
      obtain ⟨r, hr, -⟩ := mem_module_records hp
      rw [hempty] at hr
      cases hr
    refine ⟨m, by rw [hempty], fun p hp => absurd hp (hrecord p), ?_⟩
    exact List.forall₂_same.2 fun e _ => ⟨rfl, rfl, fun _ r hr => absurd hr (hrecord _)⟩
  | false =>
    obtain ⟨-, ⟨m', done', -, hentries', hdone, htext⟩, htold⟩ := running_entries hall rfl hsome
    rw [List.append_nil] at hentries'
    subst hentries'
    refine ⟨m', htext.symm, fun p hp => ?_, ?_⟩
    · obtain ⟨r, hr, -⟩ := mem_module_records hp
      obtain ⟨e, he, ht, hname⟩ := htold.named _ hr
      exact List.mem_map.2 ⟨e, List.mem_filter.2 ⟨he, ht⟩, hname⟩
    · have hboth := (List.forall₂_and_left _ _).2 ⟨fun e he => he, hdone⟩
      refine hboth.imp fun e e' h => ⟨h.2.taken, h.2.name, fun ht r hr => ?_⟩
      obtain ⟨r₀, hr₀, hcount, hsucceeded⟩ := mem_module_records hr
      have htells := htold.tells e h.1 ht r₀ hr₀
      refine ⟨hcount.trans htells.count, ?_⟩
      rw [hsucceeded, htells.succeeded, h.2.offsets ht (hnone e h.1 ht)]

/-- Where all is verified and an entry has the offsets before, its record says that it
has not got them. -/
theorem not_recorded_of_offsets {m : PtxModule} (hall : AllApart m) {e : Entry} (he : e ∈ m.entries)
    (ht : e.taken = true) (ho : e.offsets = true) {m' : PtxModule}
    (htext : m'.text = (transformEntries (fun _ => some ['*']) m.text).transformed) :
    ¬ Recorded m m' (transformModulePtx (fun _ => some ['*']) (fun _ => some 0) 0 m.text).records := by
  intro hrecorded
  obtain ⟨-, ⟨m'', done', -, hentries', hdone, htext'⟩, htold⟩ :=
    running_entries hall (rfl : verifiedKernelNames (fun _ => some ['*']) = ([], true)) rfl
  rw [List.append_nil] at hentries'
  subst hentries'
  obtain rfl := PtxModule.text_injective (htext.trans htext')
  obtain ⟨e', hb, -, -, hrecord⟩ := exists_both hdone hrecorded.entries he
  have hnone := transformed_of_offsets ho
  obtain ⟨r, hr⟩ := htold.some e he ht
  have hsucceeded := (htold.tells e he ht r hr).succeeded
  rw [hnone, Option.isSome_none, Bool.and_false] at hsucceeded
  have hrest := hb.rest
  rw [hnone, Option.getD_none, ite_self] at hrest
  have hoffsets := (offsets_like hb.name hrest).trans ho
  have hfalse := (hrecord ht r (module_records ▸ hr)).2.2 hoffsets
  rw [hsucceeded] at hfalse
  cases hfalse

/-- The names resolve to their entries, and the records say what is true of them, if
and only if each entry that is read stands apart and has no offsets yet. -/
theorem names_resolve_iff (m : PtxModule) :
    NamesResolve m ↔ ∀ before e after, m.entries = before ++ e :: after → e.taken = true →
      Apart before e after ∧ e.offsets = false := by
  have hne : ∀ before e after, m.entries = before ++ e :: after → e.taken = true → e.name ≠ [] :=
    fun before e after h ht => taken_name (h ▸ m.marked : Marked m.head (before ++ e :: after)) ht
  constructor
  · intro hr
    have hall : AllApart m := fun before e after h ht =>
      apart_of_resolves h (hne before e after h ht) (hr.resolves before e after h ht)
    intro before e after h ht
    refine ⟨hall before e after h ht, ?_⟩
    rw [← Bool.not_eq_true]
    intro ho
    obtain ⟨m', htext, hrecorded⟩ := hr.recorded (fun _ => some ['*']) (fun _ => some 0) 0
    have he : e ∈ m.entries := h ▸ List.mem_append_right before List.mem_cons_self
    exact not_recorded_of_offsets hall he ht ho htext hrecorded
  · intro h
    have hall : AllApart m := fun before e after hs ht => (h before e after hs ht).1
    refine ⟨fun before e after hs ht => resolves_of_apart hs (hne before e after hs ht)
      (hall before e after hs ht), ?_⟩
    refine recorded_of_apart hall fun e he ht => ?_
    obtain ⟨before, after, hs⟩ := List.append_of_mem he
    exact (h before e after hs ht).2

/-! ## A longer name before -/

def foobar : Entry where
  taken := true
  visible := true
  gap := []
  name := "foobar".toList
  rest := ("(.param .u64 a, .param .u64 b)\n\x7b\n\tmov.u32 %r1, %ctaid.x;\n\x7d\n" ++
    ".visible ").toList
  gap_space := nofun
  name_chars := List.all_eq_true.1 rfl
  stop := fun c hc => by cases hc; rfl
  gap_stop := nofun
  single := by decide +kernel

def foo : Entry where
  taken := true
  visible := true
  gap := []
  name := "foo".toList
  rest := "(.param .u64 a)\n\x7b\n\x7d\n".toList
  gap_space := nofun
  name_chars := List.all_eq_true.1 rfl
  stop := fun c hc => by cases hc; rfl
  gap_stop := nofun
  single := by decide +kernel

def longerFirst : PtxModule where
  head := ".visible ".toList
  entries := [foobar, foo]
  single := by decide +kernel
  marked := ⟨by decide +kernel, by decide +kernel, by decide +kernel, by decide +kernel,
    by decide +kernel, nofun, trivial⟩

/-- With `foo` verified, its record has the count of `foobar` and reports a success, and
in the transformed text `foo` is as it was. -/
theorem names_misresolved :
    ((transformModulePtx (fun _ => some "foo".toList) (fun _ => some 0) 0
      longerFirst.text).records.lookup "foo".toList).map
        (fun r => (r.originalParamCount, r.capability.transformSucceeded)) = some (2, true) ∧
    ".visible .entry foo(.param .u64 a)\n\x7b\n\x7d\n".toList <:+
      (transformEntries (fun _ => some "foo".toList) longerFirst.text).transformed ∧
    ¬ NamesResolve longerFirst := by
  refine ⟨by decide +kernel, by decide +kernel, fun h => ?_⟩
  have hcount := (h.resolves [foobar] foo [] rfl rfl).count
  revert hcount
  decide +kernel

end Xsched.HbSplit
