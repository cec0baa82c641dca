import Xsched.Cuda.EventPlaces

/-!
# Events are not used after destruction

The event that the program destroys is destroyed in the destructor of the
record command that `g_events` held. At that time nothing refers to this
command, so it calls the driver no more (`Places.held`); and once the program
has destroyed an event nobody begins to call the driver on it (`Lives.quiet`).
Other record commands of the event are not looked at.

**The break.** An event recorded on a suspended queue and recorded again on
another one has two record commands, and `g_events` holds the second.
`XEventDestroy` flags that one; when it is completed and dropped, the event is
destroyed with the first still in the buffer of the suspended queue. Resumed,
that queue calls `EventRecord` on the destroyed event. Such a record can also
be one that a thread is about to call `EventSynchronize` on, or one made on a
stream without an XQueue that a CudaEventWaitCommand has yet to synchronize.

**Results.** `event_lifetime`: in every run in which an event is destroyed when
no other of its record commands may still call the driver (`DestroyOk`), no
driver call is made on a destroyed event and each event is destroyed once
(`WellUsed`). `event_used_after_destruction` is the run above.
-/
namespace Xsched.Cuda
open Preempt
open Preempt.AsyncXQueue (XAct)

namespace EventLife
variable {cfg : Nat → Config} {s s' : EventLife}

/-! ## Who may still call the driver -/

/-- A driver call on the event of `r` may still come: from `r` itself, or for
one that was not submitted from a wait command that will call `Synchronize`. -/
def MayCall (s : EventLife) : RecordCmd → Prop
  | .submitted _ i c => Unfinished (s.xq i) c
  | .direct e n => ∃ v ∈ s.waits, v.record = .direct e n ∧ v ∉ s.called ∧
      (s.xq v.queue).machine.cmdState (.hardware v.cmd) ≠ .completed

/-- Such a command is not destructed. -/
theorem Places.held (h : Places cfg s) {r : RecordCmd} (hr : r ∈ s.records) (hm : s.MayCall r) :
    s.Held r := by
  cases r with
  | submitted e i c =>
    rcases hm with hne | ⟨call, ret, hpc, htgt⟩ | ⟨n, call, hpc⟩
    · rcases h.made e i c hr with hc | ⟨t, ht⟩
      · have hrefers : Refers (s.xq i) c := enqueued_refers (h.queues i) hc hne
        exact .inr (.inr (.inl hrefers))
      · exact .inr (.inl ⟨_, ht, rfl⟩)
    · have hsync : syncedCmd (s.xq i).machine.pc = some c := by rw [hpc, syncedCmd, htgt]
      have hrefers : Refers (s.xq i) c := .inr (.inr (.inr (.inl hsync)))
      exact .inr (.inr (.inl hrefers))
    · obtain ⟨u, e', -, hu⟩ := h.apps i n c (by rw [hpc]; rfl)
      have hkind := h.kinds e' i c (h.waiting u _ hu)
      rw [h.kinds e i c hr] at hkind
      cases hkind
      exact .inr (.inr (.inr (.inl ⟨_, hu, rfl⟩)))
  | direct e n =>
    obtain ⟨v, hv, hrec, -, hne⟩ := hm
    refine .inr (.inr (.inr (.inr ⟨v, hv, hrec, ?_⟩)))
    rcases h.placed v hv with hc | ⟨t, ht⟩
    · exact .inl (enqueued_refers (h.queues v.queue) hc hne)
    · exact .inr ⟨_, ht, rfl⟩

/-- It does not come back, unless `g_events` holds the command. -/
theorem Places.mayCall_step {act : LifeAct} (h : Places cfg s) (hs : Step cfg s act s')
    {r : RecordCmd} (hm : s'.MayCall r) : s.MayCall r ∨ s.gEvents r.event = some r := by
  cases r with
  | submitted e i c =>
    left
    rcases hs.queues i with he | ⟨a, ha⟩
    · have hm' : Unfinished (s'.xq i) c := hm
      rw [he] at hm'; exact hm'
    · exact unfinished_step (h.queues i) ha.step hm
  | direct e n =>
    obtain ⟨v, hv, hrec, hcall, hne⟩ := hm
    have hcall' : v ∉ s.called := fun hc => hcall (hs.called hc)
    have hne' : (s.xq v.queue).machine.cmdState (.hardware v.cmd) ≠ .completed := by
      rcases hs.queues v.queue with he | ⟨a, ha⟩
      · rw [← he]; exact hne
      · exact mt ((Modules.kept_step (h.queues v.queue) ha.step).completed v.cmd) hne
    cases hs.wait with
    | same hw hsub => rw [hw] at hv; exact .inl ⟨v, hv, hrec, hcall', hne'⟩
    | start t e' w hev hw hsub hin =>
      rw [hw] at hv
      rcases List.mem_append.1 hv with hv | hv
      · exact .inl ⟨v, hv, hrec, hcall', hne'⟩
      · rw [List.mem_singleton.1 hv] at hrec
        rw [hrec] at hev
        right
        rw [(h.mapped e' _ hev).2]
        exact hev
    | finish t w hret hw hsub => rw [hw] at hv; exact .inl ⟨v, hv, hrec, hcall', hne'⟩

/-- The driver calls of a queue. -/
theorem Places.queue_calls {i k e : Nat} {act : XAct} {x : AsyncXQueue} (h : Places cfg s)
    (hs : (AsyncXQueue.lts (cfg i)).step (s.xq i) act x)
    (he : e ∈ driverCalls (s.xq i) act k x) :
    ∃ r ∈ s.records, r.event = e ∧ s.MayCall r := by
  obtain ⟨c, hkind, hc, hun⟩ := driverCalls_unfinished (h.queues i) hs he
  exact ⟨.submitted e i c, h.known i c e hkind (.inr hc), rfl, hun⟩

/-- The driver call of `BeforeLaunch`. -/
theorem Places.launch_calls {v : EventWait} {e n : Nat} (h : Places cfg s) (hv : v ∈ s.waits)
    (hpc : (s.xq v.queue).machine.pc = .got (.hardware v.cmd)) (hcall : v ∉ s.called)
    (hr : v.record = .direct e n) : s.MayCall (.direct e n) := by
  refine ⟨v, hv, hr, hcall, ?_⟩
  have hlog := logInv_reachable (AsyncXQueue.machine_reachable (h.queues v.queue))
  have hp : .hardware v.cmd ∈ (s.xq v.queue).machine.pipeline := by
    rw [pipeline_of_cmd (x := .hardware v.cmd) (by rw [hpc]; rfl)]
    exact List.mem_cons_self
  rw [hlog.pipeline_pending hp]
  exact nofun

/-- A new record command was not made before. -/
theorem Places.fresh {r : RecordCmd} (h : Places cfg s)
    (hcmd : ∀ e i c, r = .submitted e i c → c.idx = (s.xq i).nextHwCmdIdx)
    (hnum : ∀ e n, r = .direct e n → n = s.nextDirect) : r ∉ s.records := by
  intro hr
  cases r with
  | submitted e i c =>
    have hidx := hcmd e i c rfl
    have hinv := AsyncXQueue.submitInv_reachable (h.queues i)
    have hlt : c.idx < (s.xq i).nextHwCmdIdx := by
      rcases h.made e i c hr with hc | ⟨t, ht⟩
      · exact (hinv.enqueued c hc).2
      · rcases h.entered t e i c ht with hp | hc
        · exact (hinv.pending t c hp).2
        · exact (hinv.enqueued c hc).2
    omega
  | direct e n =>
    have hn := h.numbers e n hr
    have heq := hnum e n rfl
    omega

/-! ## What becomes of an event -/

/-- An event is not destroyed by the program, or the command that will destroy
it is flagged, or it is destroyed and nobody calls the driver on it. -/
inductive Fate (s : EventLife) (e : Nat) : Prop
  | live (hg : s.gone e = false) (hd : s.destroys e = 0) (hf : ∀ r ∈ s.flagged, r.event ≠ e)
  | flagged (r : RecordCmd) (hg : s.gone e = true) (hd : s.destroys e = 0) (hr : r ∈ s.records)
      (he : r.event = e) (hdes : r ∉ s.destructed)
      (hf : ∀ d, d ∈ s.flagged ∧ d.event = e ↔ d = r)
  | destroyed (hg : s.gone e = true) (hd : s.destroys e = 1)
      (hf : ∀ r ∈ s.flagged, r.event = e → r ∈ s.destructed)
      (hq : ∀ r ∈ s.records, r.event = e → ¬ s.MayCall r)

theorem Fate.unused {e : Nat} (h : Fate s e) (hg : s.gone e = false) : s.destroys e = 0 := by
  cases h with
  | live hg' hd hf => exact hd
  | flagged r hg' hd hr he hdes hf => exact hd
  | destroyed hg' hd hf hq => rw [hg] at hg'; cases hg'

theorem Fate.called {e : Nat} (h : Fate s e) {r : RecordCmd} (hr : r ∈ s.records)
    (he : r.event = e) (hm : s.MayCall r) : s.destroys e = 0 := by
  cases h with
  | live hg hd hf => exact hd
  | flagged r' hg hd hr' he' hdes hf => exact hd
  | destroyed hg hd hf hq => exact absurd hm (hq r hr he)

/-- A step that does not destroy `e`. -/
theorem Fate.keep {e : Nat} (h : Fate s e) (hg : s'.gone e = s.gone e)
    (hd : s'.destroys e = s.destroys e)
    (hf : ∀ r, r.event = e → (r ∈ s'.flagged ↔ r ∈ s.flagged))
    (hdes : ∀ r, r.event = e → r ∈ s.flagged → (r ∈ s'.destructed ↔ r ∈ s.destructed))
    (hrec : s.records ⊆ s'.records)
    (hq : s.gone e = true → ∀ r ∈ s'.records, r.event = e → s'.MayCall r →
      r ∈ s.records ∧ s.MayCall r) : Fate s' e := by
  cases h with
  | live hg' hd' hf' =>
    refine .live (hg.trans hg') (hd.trans hd') fun r hr he => ?_
    exact hf' r ((hf r he).1 hr) he
  | flagged r hg' hd' hr he hdes' hf' =>
    have hmem : r ∈ s.flagged := ((hf' r).2 rfl).1
    refine .flagged r (hg.trans hg') (hd.trans hd') (hrec hr) he
      (mt (hdes r he hmem).1 hdes') fun d => ?_
    rw [← hf' d]
    exact ⟨fun ⟨h₁, h₂⟩ => ⟨(hf d h₂).1 h₁, h₂⟩, fun ⟨h₁, h₂⟩ => ⟨(hf d h₂).2 h₁, h₂⟩⟩
  | destroyed hg' hd' hf' hq' =>
    refine .destroyed (hg.trans hg') (hd.trans hd') (fun r hr he => ?_) fun r hr he hm => ?_
    · have hr' := (hf r he).1 hr
      exact (hdes r he hr').2 (hf' r hr' he)
    · obtain ⟨hr', hm'⟩ := hq hg' r hr he hm
      exact hq' r hr' he hm'

/-- When `~CudaEventRecordCommand` destroys the event, no other record command
of that event may still call the driver on it. -/
def DestroyOk (s : EventLife) (act : LifeAct) : Prop :=
  ∀ r, act = .destruct r → r ∈ s.flagged →
    ∀ d ∈ s.records, d.event = r.event → d ≠ r → ¬ s.MayCall d

structure Lives (s : EventLife) : Prop where
  recording : ∀ t r, (t, r) ∈ s.recording → s.gone r.event = false ∧ r ∉ s.destructed
  mapped : ∀ e r, s.gEvents e = some r → s.gone e = false ∧ r ∉ s.destructed
  unmapped : ∀ r ∈ s.records, s.gone r.event = false →
    s.gEvents r.event ≠ none ∨ ∃ t, (t, r) ∈ s.recording
  old : ∀ r ∈ s.destructed, r ∈ s.records
  fate : ∀ e, Fate s e
  used : s.misused = false

theorem lives_init : Lives init where
  recording := nofun
  mapped := nofun
  unmapped := nofun
  old := nofun
  fate _ := .live rfl rfl nofun
  used := rfl

/-- What a step does to the events the program destroyed. -/
inductive DestroyStep (s s' : EventLife) : LifeAct → Prop
  | same (act : LifeAct) (hg : s'.gone = s.gone) (hf : s'.flagged = s.flagged)
      (hdes : s'.destructed = s.destructed) (hd : s'.destroys = s.destroys)
      (hev : ∀ e, s.gEvents e ≠ none → s'.gEvents e ≠ none) : DestroyStep s s' act
  | driver (t e : Nat) (hgone : s.gone e = false) (hrec : ∀ p ∈ s.recording, p.2.event ≠ e)
      (hnone : s.gEvents e = none) (hg : s'.gone = Function.update s.gone e true)
      (hf : s'.flagged = s.flagged) (hdes : s'.destructed = s.destructed)
      (hd : s'.destroys = Function.update s.destroys e (s.destroys e + 1))
      (hev : s'.gEvents = s.gEvents) (hrecs : s'.records = s.records)
      (hin : s'.recording = s.recording) : DestroyStep s s' (.xEventDestroy t e)
  | flag (t e : Nat) (r : RecordCmd) (hgone : s.gone e = false)
      (hrec : ∀ p ∈ s.recording, p.2.event ≠ e) (hsome : s.gEvents e = some r)
      (hg : s'.gone = Function.update s.gone e true) (hf : s'.flagged = s.flagged ++ [r])
      (hdes : s'.destructed = s.destructed) (hd : s'.destroys = s.destroys)
      (hev : s'.gEvents = Function.update s.gEvents e none) (hrecs : s'.records = s.records)
      (hin : s'.recording = s.recording) : DestroyStep s s' (.xEventDestroy t e)
  | destruct (r : RecordCmd) (hr : r ∈ s.records) (hnot : r ∉ s.destructed) (hheld : ¬ s.Held r)
      (hg : s'.gone = s.gone) (hf : s'.flagged = s.flagged)
      (hdes : s'.destructed = s.destructed ++ [r])
      (hd : s'.destroys = if r ∈ s.flagged
        then Function.update s.destroys r.event (s.destroys r.event + 1) else s.destroys)
      (hev : s'.gEvents = s.gEvents) (hrecs : s'.records = s.records)
      (hin : s'.recording = s.recording) : DestroyStep s s' (.destruct r)

theorem Step.destroy {act : LifeAct} (h : Step cfg s act s') : DestroyStep s s' act := by
  cases h with
  | addEvent t r hr hret =>
    refine .same _ rfl rfl rfl rfl fun e he => ?_
    show Function.update s.gEvents r.event (some r) e ≠ none
    by_cases hre : e = r.event
    · rw [hre, Function.update_self]; nofun
    · rw [Function.update_of_ne hre]; exact he
  | waitNow t e r s' hev hw =>
    obtain ⟨xq, waiting, misused, rfl⟩ := hw.frame
    exact .same _ rfl rfl rfl rfl fun _ h => h
  | beforeLaunch v s' hv hpc hcall hw =>
    obtain ⟨xq, waiting, misused, rfl⟩ := hw.frame
    exact .same _ rfl rfl rfl rfl fun _ h => h
  | destroyDriver t e hgone hrec hev => exact .driver t e hgone hrec hev rfl rfl rfl rfl rfl rfl rfl
  | destroyFlag t e r hgone hrec hev => exact .flag t e r hgone hrec hev rfl rfl rfl rfl rfl rfl rfl
  | destruct r hr hdes hheld =>
    by_cases hf : r ∈ s.flagged
    · rw [if_pos hf]
      exact .destruct r hr hdes hheld rfl rfl rfl (if_pos hf).symm rfl rfl rfl
    · rw [if_neg hf]
      exact .destruct r hr hdes hheld rfl rfl rfl (if_neg hf).symm rfl rfl rfl
  | _ => exact .same _ rfl rfl rfl rfl fun _ h => h

namespace Lives

/-- Nobody begins to call the driver on an event after its XEventDestroy. -/
theorem quiet {act : LifeAct} (h : Lives s) (hp : Places cfg s) (hs : Step cfg s act s') {e : Nat}
    (hg : s.gone e = true) {r : RecordCmd} (hr : r ∈ s'.records) (he : r.event = e)
    (hm : s'.MayCall r) : r ∈ s.records ∧ s.MayCall r := by
  refine ⟨?_, ?_⟩
  · cases hs.record with
    | same hrec hin hnext => rw [← hrec]; exact hr
    | start t d hgone hrec hin hcmd hnum hnext =>
      rw [hrec] at hr
      rcases List.mem_append.1 hr with hr | hr
      · exact hr
      · rw [← List.mem_singleton.1 hr, he, hg] at hgone
        cases hgone
    | finish t d hmem hret hrec hin hev hnext => rw [← hrec]; exact hr
  · rcases hp.mayCall_step hs hm with hm | hev
    · exact hm
    · have hgone := (h.mapped _ r hev).1
      rw [he, hg] at hgone
      cases hgone

theorem fate_step {act : LifeAct} (h : Lives s) (hp : Places cfg s) (hs : Step cfg s act s')
    (hok : DestroyOk s act) (e : Nat) : Fate s' e := by
  have hq : s.gone e = true → ∀ r ∈ s'.records, r.event = e → s'.MayCall r →
      r ∈ s.records ∧ s.MayCall r := fun hg r hr he hm => h.quiet hp hs hg hr he hm
  have hrec := hs.record.subset
  cases hs.destroy with
  | same _ hg hf hdes hd hev =>
    exact (h.fate e).keep (by rw [hg]) (by rw [hd]) (fun r _ => by rw [hf])
      (fun r _ _ => by rw [hdes]) hrec hq
  | driver t d hgone hin hnone hg hf hdes hd hev hrecs hsame =>
    by_cases he : e = d
    · subst he
      -- an event that `g_events` does not know was never recorded
      have hnever (r : RecordCmd) (hr : r ∈ s.records) (hre : r.event = e) : False := by
        rcases h.unmapped r hr (by rw [hre]; exact hgone) with hmap | ⟨u, hu⟩
        · rw [hre] at hmap; exact hmap hnone
        · exact hin _ hu hre
      refine .destroyed (by rw [hg, Function.update_self]) ?_ (fun r hr hre => ?_)
        fun r hr hre => ?_
      · rw [hd, Function.update_self, (h.fate e).unused hgone]
      · rw [hf] at hr
        cases h.fate e with
        | live hg' hd' hf' => exact absurd hre (hf' r hr)
        | flagged r' hg' hd' hr' he' hdes' hf' => rw [hgone] at hg'; cases hg'
        | destroyed hg' hd' hf' hq' => rw [hgone] at hg'; cases hg'
      · rw [hrecs] at hr
        exact (hnever r hr hre).elim
    · exact (h.fate e).keep (by rw [hg, Function.update_of_ne he])
        (by rw [hd, Function.update_of_ne he]) (fun r _ => by rw [hf]) (fun r _ _ => by rw [hdes])
        hrec hq
  | flag t d r hgone hin hsome hg hf hdes hd hev hrecs hsame =>
    by_cases he : e = d
    · subst he
      obtain ⟨hr, hre⟩ := hp.mapped e r hsome
      refine .flagged r (by rw [hg, Function.update_self]) ?_ (hrec hr) hre ?_ fun d => ?_
      · rw [hd, (h.fate e).unused hgone]
      · rw [hdes]; exact (h.mapped e r hsome).2
      · cases h.fate e with
        | live hg' hd' hf' =>
          rw [hf, List.mem_append, List.mem_singleton]
          refine ⟨fun ⟨hmem, hde⟩ => ?_, fun hdr => ⟨.inr hdr, by rw [hdr]; exact hre⟩⟩
          exact hmem.resolve_left fun hold => hf' d hold hde
        | flagged r' hg' hd' hr' he' hdes' hf' => rw [hgone] at hg'; cases hg'
        | destroyed hg' hd' hf' hq' => rw [hgone] at hg'; cases hg'
    · refine (h.fate e).keep (by rw [hg, Function.update_of_ne he]) (by rw [hd]) (fun d hde => ?_)
        (fun d _ _ => by rw [hdes]) hrec hq
      rw [hf, List.mem_append, List.mem_singleton]
      refine ⟨fun hmem => hmem.resolve_right fun hdr => he ?_, .inl⟩
      rw [← hde, hdr, (hp.mapped _ r hsome).2]
  | destruct r hr hnot hheld hg hf hdes hd hev hrecs hsame =>
    by_cases hthis : r ∈ s.flagged ∧ r.event = e
    · obtain ⟨hflag, he⟩ := hthis
      rw [if_pos hflag] at hd
      cases h.fate e with
      | live hg' hd' hf' => exact absurd he (hf' r hflag)
      | flagged r' hg' hd' hr' he' hdes' hf' =>
        obtain rfl := (hf' r).1 ⟨hflag, he⟩
        refine .destroyed (by rw [hg]; exact hg') ?_ (fun d hdf hde => ?_) fun d hdr hde hm => ?_
        · rw [hd, he, Function.update_self, hd']
        · rw [hf] at hdf
          rw [(hf' d).1 ⟨hdf, hde⟩, hdes]
          exact List.mem_append_right _ List.mem_cons_self
        · obtain ⟨hdr', hm'⟩ := hq hg' d hdr hde hm
          by_cases hdr₀ : d = r
          · subst hdr₀
            exact hheld (hp.held hdr' hm')
          · exact hok r rfl hflag d hdr' (by rw [hde, he]) hdr₀ hm'
      | destroyed hg' hd' hf' hq' => exact absurd (hf' r hflag he) hnot
    · refine (h.fate e).keep (by rw [hg]) ?_ (fun d _ => by rw [hf]) (fun d hde hdf => ?_) hrec hq
      · rw [hd]
        split
        · rename_i hflag
          exact Function.update_of_ne (fun hre => hthis ⟨hflag, hre.symm⟩) _ _
        · rfl
      · rw [hdes, List.mem_append, List.mem_singleton]
        refine or_iff_left fun hdr => hthis ?_
        rw [← hdr]
        exact ⟨hdf, hde⟩

/-- The driver calls of a step are made on events that are not destroyed. -/
theorem touch_used {events : List Nat} (hu : s.misused = false)
    (h : ∀ e ∈ events, s.destroys e = 0) : (touch events s).misused = false := by
  show (s.misused || events.any fun e => decide (0 < s.destroys e)) = false
  rw [hu, Bool.false_or, List.any_eq_false]
  intro e he
  rw [h e he]
  exact nofun

theorem used_step {act : LifeAct} (h : Lives s) (hp : Places cfg s) (hs : Step cfg s act s') :
    s'.misused = false := by
  have hone {e : Nat} (hd : s.destroys e = 0) : ∀ d ∈ [e], s.destroys d = 0 := by
    intro d hmem
    rw [List.mem_singleton.1 hmem]
    exact hd
  cases hs with
  | recordDirect t e hgone => exact touch_used h.used (hone ((h.fate e).unused hgone))
  | waitDriver t e q hgone => exact touch_used h.used (hone ((h.fate e).unused hgone))
  | waitNow t e r s' hev hw =>
    cases hw with
    | direct d n hr =>
      have he : d = e := by rw [← (hp.mapped e r hev).2, hr]; rfl
      rw [he]
      exact touch_used h.used (hone ((h.fate e).unused (h.mapped e r hev).1))
    | completed => exact h.used
    | wait d i c x hr hs => exact h.used
  | beforeLaunch v s' hv hpc hcall hw =>
    cases hw with
    | direct d n hr =>
      have hm := hp.launch_calls hv hpc hcall hr
      have hmem := hp.waits v hv
      rw [hr] at hmem
      exact touch_used (s := { s with called := s.called ++ [v] }) h.used
        (hone ((h.fate d).called hmem rfl hm))
    | completed => exact h.used
    | wait d i c x hr hs => exact h.used
  | destruct r hr hdes hheld => split <;> exact h.used
  | queue i act k x hact hs =>
    refine touch_used (s := setXq i x s) h.used fun e he => ?_
    obtain ⟨r, hr, hre, hm⟩ := hp.queue_calls hs he
    exact (h.fate e).called hr hre hm
  | _ => exact h.used

theorem recording_step {act : LifeAct} (h : Lives s) (hp : Places cfg s) (hs : Step cfg s act s')
    {t : Nat} {r : RecordCmd} (hr : (t, r) ∈ s'.recording) :
    s'.gone r.event = false ∧ r ∉ s'.destructed := by
  cases hs.destroy with
  | same _ hg hf hdes hd hev =>
    rw [hg, hdes]
    cases hs.record with
    | same hrec hin hnext => rw [hin] at hr; exact h.recording t r hr
    | start u d hgone hrec hin hcmd hnum hnext =>
      rw [hin] at hr
      rcases List.mem_append.1 hr with hr | hr
      · exact h.recording t r hr
      · cases List.mem_singleton.1 hr
        have hnew := hp.fresh (fun e i c he => (hcmd e i c he).2.1) fun e n he => (hnum e n he).1
        exact ⟨hgone, fun hm => hnew (h.old r hm)⟩
    | finish u d hmem hret hrec hin hev' hnext =>
      rw [hin] at hr
      exact h.recording t r (List.mem_of_mem_filter hr)
  | driver u e hgone hrec hnone hg hf hdes hd hev hrecs hin =>
    rw [hin] at hr
    rw [hg, hdes, Function.update_of_ne (hrec _ hr)]
    exact h.recording t r hr
  | flag u e d hgone hrec hsome hg hf hdes hd hev hrecs hin =>
    rw [hin] at hr
    rw [hg, hdes, Function.update_of_ne (hrec _ hr)]
    exact h.recording t r hr
  | destruct d hd hnot hheld hg hf hdes hdd hev hrecs hin =>
    rw [hin] at hr
    rw [hg, hdes, List.mem_append, List.mem_singleton]
    refine ⟨(h.recording t r hr).1, fun hm => ?_⟩
    rcases hm with hm | rfl
    · exact (h.recording t r hr).2 hm
    · exact hheld (.inr (.inl ⟨_, hr, rfl⟩))

theorem mapped_step {act : LifeAct} (h : Lives s) (hp : Places cfg s) (hs : Step cfg s act s')
    {e : Nat} {r : RecordCmd} (hr : s'.gEvents e = some r) :
    s'.gone e = false ∧ r ∉ s'.destructed := by
  cases hs.destroy with
  | same _ hg hf hdes hd hev =>
    rw [hg, hdes]
    rcases hs.mapped hr with hr | ⟨rfl, t, ht⟩
    · exact h.mapped e r hr
    · exact h.recording t r ht
  | driver u d hgone hrec hnone hg hf hdes hd hev hrecs hin =>
    rw [hev] at hr
    have hne : e ≠ d := by
      rintro rfl
      rw [hnone] at hr; cases hr
    rw [hg, hdes, Function.update_of_ne hne]
    exact h.mapped e r hr
  | flag u d c hgone hrec hsome hg hf hdes hd hev hrecs hin =>
    rw [hev] at hr
    have hne : e ≠ d := by
      rintro rfl
      rw [Function.update_self] at hr; cases hr
    rw [Function.update_of_ne hne] at hr
    rw [hg, hdes, Function.update_of_ne hne]
    exact h.mapped e r hr
  | destruct d hd hnot hheld hg hf hdes hdd hev hrecs hin =>
    rw [hev] at hr
    rw [hg, hdes, List.mem_append, List.mem_singleton]
    refine ⟨(h.mapped e r hr).1, fun hm => ?_⟩
    rcases hm with hm | rfl
    · exact (h.mapped e r hr).2 hm
    · refine hheld (.inl ?_)
      rw [(hp.mapped e r hr).2]
      exact hr

theorem unmapped_step {act : LifeAct} (h : Lives s) (hs : Step cfg s act s') {r : RecordCmd}
    (hr : r ∈ s'.records) (hgone : s'.gone r.event = false) :
    s'.gEvents r.event ≠ none ∨ ∃ t, (t, r) ∈ s'.recording := by
  cases hs.destroy with
  | same _ hg hf hdes hd hev =>
    rw [hg] at hgone
    cases hs.record with
    | same hrec hin hnext =>
      rw [hrec] at hr
      rw [hin]
      exact (h.unmapped r hr hgone).imp_left (hev _)
    | start u d hgone' hrec hin hcmd hnum hnext =>
      rw [hrec] at hr
      rw [hin]
      rcases List.mem_append.1 hr with hr | hr
      · exact (h.unmapped r hr hgone).imp (hev _) fun ⟨t, ht⟩ => ⟨t, List.mem_append_left _ ht⟩
      · rw [List.mem_singleton.1 hr]
        exact .inr ⟨u, List.mem_append_right _ List.mem_cons_self⟩
    | finish u d hmem hret hrec hin hev' hnext =>
      rw [hrec] at hr
      rw [hin]
      rcases h.unmapped r hr hgone with hmap | ⟨t, ht⟩
      · exact .inl (hev _ hmap)
      · by_cases he : (t, r) = (u, d)
        · cases he
          left
          rw [hev', Function.update_self]
          nofun
        · exact .inr ⟨t, List.mem_filter.2 ⟨ht, decide_eq_true he⟩⟩
  | driver u e hgone' hrec hnone hg hf hdes hd hev hrecs hin =>
    have hne : r.event ≠ e := by
      rintro he
      rw [hg, he, Function.update_self] at hgone; cases hgone
    rw [hg, Function.update_of_ne hne] at hgone
    rw [hrecs] at hr
    rw [hev, hin]
    exact h.unmapped r hr hgone
  | flag u e d hgone' hrec hsome hg hf hdes hd hev hrecs hin =>
    have hne : r.event ≠ e := by
      rintro he
      rw [hg, he, Function.update_self] at hgone; cases hgone
    rw [hg, Function.update_of_ne hne] at hgone
    rw [hrecs] at hr
    rw [hev, hin, Function.update_of_ne hne]
    exact h.unmapped r hr hgone
  | destruct d hd hnot hheld hg hf hdes hdd hev hrecs hin =>
    rw [hg] at hgone
    rw [hrecs] at hr
    rw [hev, hin]
    exact h.unmapped r hr hgone

theorem old_step {act : LifeAct} (h : Lives s) (hs : Step cfg s act s') {r : RecordCmd}
    (hr : r ∈ s'.destructed) : r ∈ s'.records := by
  refine hs.record.subset ?_
  cases hs.destroy with
  | same _ hg hf hdes hd hev => rw [hdes] at hr; exact h.old r hr
  | driver u e hgone hrec hnone hg hf hdes hd hev hrecs hin => rw [hdes] at hr; exact h.old r hr
  | flag u e d hgone hrec hsome hg hf hdes hd hev hrecs hin => rw [hdes] at hr; exact h.old r hr
  | destruct d hd hnot hheld hg hf hdes hdd hev hrecs hin =>
    rw [hdes] at hr
    rcases List.mem_append.1 hr with hr | hr
    · exact h.old r hr
    · rw [List.mem_singleton.1 hr]; exact hd

theorem step {act : LifeAct} (h : Lives s) (hp : Places cfg s) (hs : Step cfg s act s')
    (hok : DestroyOk s act) : Lives s' where
  recording _ _ hr := h.recording_step hp hs hr
  mapped _ _ hr := h.mapped_step hp hs hr
  unmapped _ hr hgone := h.unmapped_step hs hr hgone
  old _ hr := h.old_step hs hr
  fate e := h.fate_step hp hs hok e
  used := h.used_step hp hs

end Lives

theorem lives_reachable (hr : ((lts cfg).restrict DestroyOk).Reachable s) : Lives s := by
  refine LTS.reachable_induction (I := Lives) ?_ ?_ hr
  · rintro s rfl; exact lives_init
  · exact fun s act s' hr h hs =>
      h.step (places_reachable hr.of_restrict) (step_cases hs.1) hs.2

/-! ## Events are not used after destruction -/

/-- No driver call is made on a destroyed event, and each event that the
program destroyed is destroyed once: it has been, or its record command is
flagged and will do it when nothing refers to it any more. -/
structure WellUsed (cfg : Nat → Config) (s : EventLife) : Prop where
  unused : s.misused = false
  live : ∀ e, s.gone e = false → s.destroys e = 0
  once : ∀ e, s.gone e = true → s.destroys e = 1 ∨
    s.destroys e = 0 ∧ ∃ r ∈ s.flagged, r.event = e ∧
      (s.Held r ∨ ∃ s', (lts cfg).step s (.destruct r) s' ∧ s'.destroys e = 1)

/-- **Events are not used after destruction** in a run in which an event is
destroyed when no other of its record commands may still call the driver. -/
theorem event_lifetime (cfg : Nat → Config) (s : EventLife)
    (hr : ((lts cfg).restrict DestroyOk).Reachable s) : WellUsed cfg s := by
  have h := lives_reachable hr
  refine ⟨h.used, fun e hg => (h.fate e).unused hg, fun e hg => ?_⟩
  cases h.fate e with
  | live hg' hd hf => rw [hg] at hg'; cases hg'
  | flagged r hg' hd hmem he hdes hf =>
    have hflag : r ∈ s.flagged := ((hf r).2 rfl).1
    refine .inr ⟨hd, r, hflag, he, ?_⟩
    by_cases hheld : s.Held r
    · exact .inl hheld
    · right
      have hstep : (lts cfg).step s (.destruct r)
          (driverDestroy r.event { s with destructed := s.destructed ++ [r] }) := by
        show step cfg s (.destruct r) = _
        simp only [step, destruct, hmem, hdes, hheld, hflag, not_false_eq_true, and_self, if_true]
      refine ⟨_, hstep, ?_⟩
      show Function.update s.destroys r.event (s.destroys r.event + 1) e = 1
      rw [he, Function.update_self, hd]
  | destroyed hg' hd hf hq => exact .inl hd

/-! ## One event, two queues -/

def worker (i : Nat) : LifeAct := .queue i (.machine (.worker true)) 0

def submitter (i : Nat) : LifeAct := .queue i (.submitter 0) 0

/-- The first command of a queue records event 7. -/
def recordCmd (i : Nat) : RecordCmd :=
  .submitted 7 i ⟨1, kCommandPropertyIdempotent, .eventRecord 7⟩

/-- Thread 0 records event 7 on XQueue `i`. -/
def recordTrace (i : Nat) : List LifeAct :=
  .xEventRecord 0 7 (some i) :: List.replicate 3 (submitter i) ++ [.addEvent 0 (recordCmd i)]

/-- The worker of queue `i` completes the command and synchronizes the batch,
after which the queue does not refer to it. -/
def completeTrace (i : Nat) : List LifeAct := List.replicate 17 (worker i)

def waitCmd : EventWait := ⟨1, ⟨1, kCommandPropertyIdempotent, .hal⟩, recordCmd 0⟩

/-- Thread 0 has queue 1 wait for the event and destroys it. -/
def waitTrace : List LifeAct :=
  .xStreamWaitEvent 0 7 (some 1) :: List.replicate 3 (submitter 1) ++
  [.returnSubmit 0 waitCmd, .xEventDestroy 0 7]

/-- The worker of queue 1 comes to the wait command, calls its `BeforeLaunch`
and is done with it. -/
def launchTrace : List LifeAct :=
  List.replicate 5 (worker 1) ++ .beforeLaunch waitCmd :: List.replicate 12 (worker 1)

/-- The event has no other record command. -/
def alone (s : EventLife) : LifeAct → Bool
  | .destruct r => decide (∀ d ∈ s.records, d.event = r.event → d = r)
  | _ => true

theorem alone_ok {act : LifeAct} (h : s.alone act = true) : DestroyOk s act := by
  rintro r rfl _ d hd he hne
  exact absurd (of_decide_eq_true h d hd he) hne

def view (s : EventLife) : Bool × Nat × Bool × List EventWait :=
  (s.misused, s.destroys 7, s.gone 7, s.called)

/-- Recorded on queue 0, waited for on queue 1, destroyed. -/
theorem event_lifetime_one : ∃ s,
    ((lts fun _ => Shim.cfgTwo).restrict DestroyOk).Reachable s ∧ s.called = [waitCmd] ∧
    s.destroys 7 = 1 ∧ WellUsed (fun _ => Shim.cfgTwo) s := by
  have htrace : ((LTS.exec (LTS.guarded (fun s act => alone s act = true)
      (step fun _ => Shim.cfgTwo)) init
      (recordTrace 0 ++ waitTrace ++ completeTrace 0 ++ launchTrace ++
        [.destruct (recordCmd 0)])).map view) =
      some (false, 1, true, [waitCmd]) := by decide +kernel
  obtain ⟨s, hs, he⟩ := Option.map_eq_some_iff.1 htrace
  simp only [view, Prod.mk.injEq] at he
  obtain ⟨-, hdestroys, -, hcalled⟩ := he
  have hr : ((lts fun _ => Shim.cfgTwo).restrict fun s act => alone s act = true).Reachable s :=
    LTS.reachable_restrict_of_exec rfl hs
  have hr' : ((lts fun _ => Shim.cfgTwo).restrict DestroyOk).Reachable s :=
    hr.restrict_mono fun s act h => alone_ok h
  exact ⟨s, hr', hcalled, hdestroys, event_lifetime _ s hr'⟩

/-- Thread 1 suspends queue 0, thread 0 records the event there and again on
queue 1. Destroyed with the second command, it is recorded by the first when
queue 0 is resumed. -/
def suspendedTrace : List LifeAct :=
  .queue 0 (.suspend 1 0) 0 :: List.replicate 4 (.queue 0 (.controller 1) 0) ++
  recordTrace 0 ++ recordTrace 1 ++ [.xEventDestroy 0 7] ++ completeTrace 1 ++
  [.destruct (recordCmd 1), .queue 0 (.resume 1 0) 0] ++
  List.replicate 3 (.queue 0 (.controller 1) 0) ++ List.replicate 7 (worker 0)

/-- **Counterexample**: `EventRecord` is called on a destroyed event. -/
theorem event_used_after_destruction :
    ¬ ∀ (cfg : Nat → Config) (s : EventLife), (lts cfg).Reachable s → WellUsed cfg s := by
  intro h
  have htrace : ((LTS.exec (step fun _ => Shim.cfgTwo) init suspendedTrace).map view) =
      some (true, 1, true, []) := by decide +kernel
  obtain ⟨s, hs, he⟩ := Option.map_eq_some_iff.1 htrace
  simp only [view, Prod.mk.injEq] at he
  obtain ⟨hmisused, -⟩ := he
  have hr : (lts fun _ => Shim.cfgTwo).Reachable s := LTS.reachable_of_exec rfl hs
  rw [(h _ s hr).unused] at hmisused
  cases hmisused

end EventLife
end Xsched.Cuda
