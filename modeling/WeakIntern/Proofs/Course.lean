import WeakIntern.Hash.Seed
import WeakIntern.Proofs.Changes
import WeakIntern.Proofs.Commits
import WeakIntern.Proofs.Workshop
/-!
# The course of a table

The table of an interner only goes forward: its size is a power of two that doubles now and then,
and from its first hash it goes to that of a seed once at most (`sizes_and_epochs_advance`), however
often a rehash is asked for. The interner knows by a flag that the table was rehashed, the table by
its hash, and the log by an event. That the three agree is what every request keeps
(`Interner.OnTrack`).
-/

namespace WeakIntern

/-! ## What the log knows -/

/-- The seed in the report of a rehash. -/
def Event.seed? : Event → Option UInt64
  | .rehashed _ seed _ => some seed
  | _ => none

namespace EventLog

/-- The seeds of the rehashes that the log has. -/
def seeds (log : EventLog) : List UInt64 := log.events.toList.filterMap Event.seed?

/-- A log that is switched on, and would keep the report of a rehash. -/
structure Listens (log : EventLog) : Prop where
  enabled : log.enabled = true
  info : Level.info.passes log.options.threshold = true

variable {log : EventLog} {e : Event}

theorem seeds_record (hnone : e.seed? = none) : (log.record e).seeds = log.seeds :=
  log.filterMap_record hnone

theorem Listens.record (h : log.Listens) (e : Event) : (log.record e).Listens := by
  unfold EventLog.record
  split
  · exact ⟨h.enabled, h.info⟩
  · exact h

theorem Listens.seeds_record (h : log.Listens) (size : Nat) (seed : UInt64) (ms : Float) :
    (log.record (.rehashed size seed ms)).seeds = log.seeds ++ [seed] := by
  have hkeeps : log.keeps (.rehashed size seed ms) = true := by
    rw [EventLog.keeps, h.enabled]
    exact h.info
  rw [seeds, events_record, if_pos hkeeps, List.filterMap_append]
  rfl

end EventLog

/-- Maintenance goes on, and nothing is rehashed. -/
structure Maintenance.SameRehash (m m' : Maintenance) : Prop where
  rehashed : m'.rehashed = m.rehashed
  seeds : m'.log.seeds = m.log.seeds
  listens : m.log.Listens → m'.log.Listens

namespace Maintenance

variable {m m' m'' : Maintenance}

theorem SameRehash.refl (m : Maintenance) : m.SameRehash m := ⟨rfl, rfl, id⟩

theorem SameRehash.trans (h : m.SameRehash m') (h' : m'.SameRehash m'') : m.SameRehash m'' :=
  ⟨h'.rehashed.trans h.rehashed, h'.seeds.trans h.seeds, h'.listens ∘ h.listens⟩

/-- An event may be recorded that is not a rehash, and work asked for. -/
theorem SameRehash.of_record (e : Event) (hnone : e.seed? = none) (hflag : m'.rehashed = m.rehashed)
    (hlog : m'.log = m.log.record e) : m.SameRehash m' where
  rehashed := hflag
  seeds := hlog ▸ EventLog.seeds_record hnone
  listens h := hlog ▸ h.record e

theorem sameRehash_raiseAlarm (m : Maintenance) (t : Table) (alarm : Bool) :
    m.SameRehash (m.raiseAlarm t alarm) := by
  rw [raiseAlarm]
  split
  · exact .of_record (.rehashRequested t.size) rfl rfl rfl
  · exact .refl m

theorem sameRehash_notifyDead (m : Maintenance) (t : Table) (numDead : Nat) :
    m.SameRehash (m.notifyDead t numDead).2 := by
  simp only [notifyDead]
  split
  · exact .refl m
  · exact .of_record (.workTriggered t.loadFactor (t.deadFactor numDead) numDead) rfl rfl rfl

theorem sameRehash_doWork (m : Maintenance) (heap : Heap) (t : Table) :
    m.SameRehash (m.doWork heap t).2.2.1 := by
  refine .of_record _ ?_ rfl rfl
  split
  · next summary _ => cases m.settings.selectWork t.loadFactor t.isMaxSize <;> rfl
  · rfl

end Maintenance

/-! ## Requests that change no layout -/

theorem Table.sameFrame_insertIfAbsent (t : Table) (heap : Heap) (o : ObjectId) (ref : WeakRef) :
    t.SameFrame (t.insertIfAbsent heap o ref).2 := by
  simp only [insertIfAbsent]
  cases (land heap t.alarmLength o 0 (t.active :: t.successors)).value with
  | occupied existing =>
    obtain ⟨notices, heq⟩ := t.release_eq ref
    dsimp only
    rw [heq]
    exact ⟨rfl, rfl, rfl, rfl, rfl, rfl, rfl⟩
  | vacant depth place hash =>
    cases depth with
    | zero => exact ⟨rfl, rfl, rfl, rfl, t.active.size_link _ _, rfl, rfl⟩
    | succ depth => exact ⟨rfl, rfl, rfl, rfl, rfl, rfl, rfl⟩
  | stranded => exact .refl t

namespace Interner

/-- Neither the layout of the table changes, nor what is known of a rehash. -/
structure Quiet (i i' : Interner) : Prop where
  layout : i'.table.layout = i.table.layout
  same : i.maintenance.SameRehash i'.maintenance

variable {i i' i'' : Interner}

theorem Quiet.refl (i : Interner) : i.Quiet i := ⟨rfl, .refl _⟩

theorem Quiet.trans (h : i.Quiet i') (h' : i'.Quiet i'') : i.Quiet i'' :=
  ⟨h'.layout.trans h.layout, h.same.trans h'.same⟩

theorem quiet_shutdown (i : Interner) : i.Quiet i.shutdown := by
  rw [shutdown]
  split
  · exact ⟨rfl, ⟨rfl, rfl, id⟩⟩
  · exact .refl i

theorem Change.quiet (h : i.Change i') : i.Quiet i' := by
  cases h with
  | heap heap => exact ⟨rfl, .refl _⟩
  | alarm raised => exact ⟨rfl, Maintenance.sameRehash_raiseAlarm _ _ _⟩
  | insert o =>
    exact ⟨((i.table.acquire o).2.sameFrame_insertIfAbsent i.heap o (i.table.acquire o).1).layout,
      .refl _⟩
  | drain => exact ⟨rfl, .refl _⟩
  | drained entries => exact ⟨rfl, .of_record _ rfl rfl rfl⟩
  | notifyDead numDead => exact ⟨rfl, Maintenance.sameRehash_notifyDead _ _ _⟩
  | shutdown => exact i.quiet_shutdown

theorem Changes.quiet (h : i.Changes i') : i.Quiet i' := by
  induction h with
  | refl => exact .refl i
  | tail before change ih => exact ih.trans change.quiet

end Interner

theorem Session.quiet_step (c : Session) {request : Request}
    (hother : request.isMaintenance = false) :
    c.interner.Quiet (c.step request).2.interner :=
  (c.changes_step hother).quiet

namespace Interner

variable {i i' i'' : Interner} {m : WeakMap} {ended ended' : List TaskSummary}

/-! ## Requests that may commit a task -/

/-- The commit of a rehash, if an alarm is answered by one. -/
def rehashCommits (i : Interner) (seed : UInt64) : List TaskSummary :=
  if (i.rehash seed).1 = .rehashed
    then (Task.run i.heap (.new i.table (.rehash seed)) i.table).summary.toList else []

/-- The commit of the outstanding work, if it can be done. -/
def workCommits (i : Interner) : List TaskSummary :=
  (Task.run i.heap (.new i.table i.doWork.1.taskKind) i.table).summary.toList

/-- Answer an alarm, if there is one. -/
def answerAlarm (i : Interner) (seed : UInt64) : Interner :=
  if i.maintenance.needsRehash then (i.rehash seed).2 else i

/-- What tasks commit while a request is served. -/
def commits (i : Interner) : Request → List TaskSummary
  | .rehash seed => i.rehashCommits seed
  | .runPending seed =>
    (if i.maintenance.needsRehash then i.rehashCommits seed else []) ++
      if (i.answerAlarm seed).maintenance.hasWork then (i.answerAlarm seed).workCommits else []
  | _ => []

/-- What the alarms come to that are answered while a request is served. -/
def outcomes (i : Interner) : Request → List RehashOutcome
  | .rehash seed => [(i.rehash seed).1]
  | .runPending seed => if i.maintenance.needsRehash then [(i.rehash seed).1] else []
  | _ => []

/-- What an interner knows of a rehash is so: its flag and its log tell of the one that its table is
under, and of no other. -/
structure OnTrack (i : Interner) : Prop where
  fits : i.table.layout.Fits
  rehashed : i.maintenance.rehashed = i.table.epoch.isAlternate
  recorded : i.log.seeds = i.table.epoch.seeds
  listens : i.log.Listens

/-- The interner stays on track while tasks commit. -/
structure Proceeds (i : Interner) (ended : List TaskSummary) (i' : Interner) : Prop where
  leads : Commits i.table.layout ended i'.table.layout
  onTrack : i'.OnTrack

theorem Proceeds.trans (h : i.Proceeds ended i') (h' : i'.Proceeds ended' i'') :
    i.Proceeds (ended ++ ended') i'' :=
  ⟨h.leads.append h'.leads, h'.onTrack⟩

/-- Whatever else is committed, without a rehash the interner stays on track. -/
theorem OnTrack.proceeds (h : i.OnTrack) (hleads : Commits i.table.layout ended i'.table.layout)
    (hplain : ∀ summary ∈ ended, summary.kind.seed? = none)
    (hsame : i.maintenance.SameRehash i'.maintenance) :
    i.Proceeds ended i' := by
  have hepoch : i'.table.epoch = i.table.epoch := hleads.epoch_eq hplain
  refine ⟨hleads, hleads.fits h.fits, ?_, ?_, hsame.listens h.listens⟩
  · rw [hsame.rehashed, h.rehashed, hepoch]
  · rw [hepoch, ← h.recorded]
    exact hsame.seeds

theorem OnTrack.quiet (h : i.OnTrack) (hquiet : i.Quiet i') : i.Proceeds [] i' := by
  refine h.proceeds ?_ (fun _ hsummary => absurd hsummary List.not_mem_nil) hquiet.same
  rw [hquiet.layout]
  exact .none _

/-- All that an answer to an alarm can come to. -/
inductive Answered (i : Interner) (seed : UInt64) : RehashOutcome → Interner → Prop where
  | quiet {outcome : RehashOutcome} {i' : Interner} (houtcome : outcome ≠ .rehashed)
      (hquiet : i.Quiet i') :
      Answered i seed outcome i'
  | rehashed {i' : Interner} (summary : TaskSummary) (hfirst : i.maintenance.rehashed = false)
      (hrun : (Task.run i.heap (.new i.table (.rehash seed)) i.table).summary = some summary)
      (htable : i'.table = (Task.run i.heap (.new i.table (.rehash seed)) i.table).table)
      (hflag : i'.maintenance.rehashed = true) (hlog :
        i'.log = i.log.record (.rehashed summary.newSize seed 0.0)) :
      Answered i seed .rehashed i'

theorem answered (i : Interner) (seed : UInt64) :
    i.Answered seed (i.rehash seed).1 (i.rehash seed).2 := by
  simp only [rehash, Maintenance.rehash]
  split
  · exact .quiet (by simp) ⟨rfl, .of_record (.rehashDeferredToGrow i.table.loadFactor) rfl rfl rfl⟩
  · split
    · exact .quiet (by simp) ⟨rfl, .of_record .rehashRepeated rfl rfl rfl⟩
    · next hfirst =>
      simp only [Maintenance.rekey]
      split
      · next summary hrun => exact .rehashed summary (Bool.not_eq_true _ ▸ hfirst) hrun rfl rfl rfl
      · next hrun =>
        exact .quiet (by simp) ⟨congrArg Table.layout (Task.table_run_of_none hrun),
          .of_record .rehashFailed rfl rfl rfl⟩

theorem flag_rehash (i : Interner) (seed : UInt64) :
    (i.rehash seed).2.maintenance.rehashed.toNat =
      i.maintenance.rehashed.toNat + [(i.rehash seed).1].count .rehashed := by
  have hanswered := i.answered seed
  generalize i.rehash seed = answer at hanswered ⊢
  obtain ⟨outcome, i'⟩ := answer
  dsimp only at hanswered ⊢
  cases hanswered with
  | quiet houtcome hquiet =>
    rw [hquiet.same.rehashed, List.count_singleton, beq_false_of_ne houtcome]
    rfl
  | rehashed summary hfirst hrun htable hflag hlog =>
    rw [hflag, hfirst]
    rfl

theorem flag_runPending (i : Interner) (seed : UInt64) :
    (i.runPending seed).2.maintenance.rehashed = (i.answerAlarm seed).maintenance.rehashed := by
  rw [runPending, answerAlarm]
  generalize (if i.maintenance.needsRehash then (i.rehash seed).2 else i) = i'
  have hdone := (i'.maintenance.sameRehash_doWork i'.heap i'.table).rehashed
  dsimp only
  split
  · split <;> exact hdone
  · rfl

theorem OnTrack.epoch_default (h : i.OnTrack) (hfirst : i.maintenance.rehashed = false) :
    i.table.epoch = .default := by
  rw [h.rehashed] at hfirst
  cases hepoch : i.table.epoch with
  | default => rfl
  | alternate seed =>
    rw [hepoch] at hfirst
    cases hfirst

/-- **An answer to an alarm** rehashes a table that was not rehashed before, or no table. -/
theorem OnTrack.rehash (h : i.OnTrack) (hkeeps : i.Keeps m) {seed : UInt64} (hseed : seed ≠ 0) :
    i.Proceeds (i.rehashCommits seed) (i.rehash seed).2 := by
  have hanswered := i.answered seed
  rw [rehashCommits]
  generalize i.rehash seed = answer at hanswered ⊢
  obtain ⟨outcome, i'⟩ := answer
  dsimp only at hanswered ⊢
  cases hanswered with
  | quiet houtcome hquiet =>
    rw [if_neg houtcome]
    exact h.quiet hquiet
  | rehashed summary hfirst hrun htable hflag hlog =>
    have hdefault := h.epoch_default hfirst
    obtain ⟨hleads, hkind⟩ :=
      Task.commits_run hkeeps.steady.rest hkeeps.chunkBuckets_lt h.fits i.heap (.rehash seed)
      fun seed' heq => by
        cases heq
        exact ⟨hdefault, hseed⟩
    rw [← htable, hrun] at hleads
    rw [hrun] at hkind
    have hepoch : i'.table.epoch = .alternate seed := hleads.epoch_of_rehash (hkind summary rfl)
    rw [if_pos rfl, hrun]
    refine ⟨hleads, hleads.fits h.fits, ?_, ?_, hlog ▸ h.listens.record _⟩
    · rw [hflag, hepoch]
      rfl
    · rw [hlog, h.listens.seeds_record, h.recorded, hepoch, hdefault]
      rfl

theorem OnTrack.doWork (h : i.OnTrack) (hkeeps : i.Keeps m) :
    i.Proceeds i.workCommits i.doWork.2 := by
  obtain ⟨hleads, hkind⟩ := Task.commits_run hkeeps.steady.rest hkeeps.chunkBuckets_lt h.fits i.heap
    i.doWork.1.taskKind fun seed heq => by
      cases hwork : i.doWork.1 <;> rw [hwork] at heq <;> cases heq
  refine h.proceeds hleads (fun summary hsummary => ?_)
    (i.maintenance.sameRehash_doWork i.heap i.table)
  rw [hkind summary (Option.mem_toList.1 hsummary)]
  cases i.doWork.1 <;> rfl

/-- **Pending work**: an alarm is answered first, and the work is done on what the answer leaves. -/
theorem OnTrack.runPending (h : i.OnTrack) (hkeeps : i.Keeps m) {seed : UInt64} (hseed : seed ≠ 0) :
    i.Proceeds (i.commits (.runPending seed)) (i.runPending seed).2 := by
  have hanswered : i.Proceeds (if i.maintenance.needsRehash then i.rehashCommits seed else [])
        (if i.maintenance.needsRehash then (i.rehash seed).2 else i) ∧
      (if i.maintenance.needsRehash then (i.rehash seed).2 else i).Keeps m := by
    split
    · exact ⟨h.rehash hkeeps hseed, (hkeeps.rehash seed).1⟩
    · exact ⟨h.quiet (.refl i), hkeeps⟩
  rw [commits, answerAlarm, Interner.runPending]
  generalize (if i.maintenance.needsRehash then (i.rehash seed).2 else i) = i' at hanswered ⊢
  obtain ⟨hfirst, hkeeps'⟩ := hanswered
  have hdone := hfirst.onTrack.doWork hkeeps'
  refine hfirst.trans ?_
  dsimp only
  split
  · split
    · have hnotified : i'.doWork.2.Quiet { i'.doWork.2 with
          table := i'.doWork.2.table.notify (i'.doWork.2.workNotice i'.doWork.1) } := ⟨rfl, .refl _⟩
      have hboth := hdone.trans (hdone.onTrack.quiet hnotified)
      rwa [List.append_nil] at hboth
    · exact hdone
  · exact hfirst.onTrack.quiet (.refl i')

end Interner

/-- The flag goes up with the one alarm that is answered by a rehash. -/
theorem Session.flag_step (c : Session) (request : Request) :
    (c.step request).2.interner.maintenance.rehashed.toNat =
      c.interner.maintenance.rehashed.toNat + (c.interner.outcomes request).count .rehashed := by
  cases request with
  | rehash seed => exact c.interner.flag_rehash seed
  | runPending seed =>
    show (c.interner.runPending seed).2.maintenance.rehashed.toNat = _
    rw [Interner.flag_runPending, Interner.answerAlarm, Interner.outcomes]
    split
    · exact c.interner.flag_rehash seed
    · rfl
  | allocate | retain | drop | intern | internObject | lookup | notifyDead | reportDead
  | transferOverlay | shutdown =>
    exact congrArg Bool.toNat (c.quiet_step rfl).same.rehashed

/-- The seed for a rehash is drawn from the source, after some words or other, and the tasks of
callers do not rehash the table. -/
def Deed.Regular (source : RandomSource) : Deed → Prop
  | .ask (.runPending seed) | .ask (.rehash seed) => ∃ n, (source.drawSeed n).1 = seed
  | .work (.create kind _) _ => kind.seed? = none
  | _ => True

variable {source : RandomSource}

theorem Interner.OnTrack.request {region : List ObjectId} {c : Session} {r : Registry}
    (h : c.interner.OnTrack) (hmirrors : c.Mirrors region r) {request : Request}
    (hregular : (Deed.ask request).Regular source) :
    c.interner.Proceeds (c.interner.commits request) (c.step request).2.interner := by
  cases request with
  | runPending seed =>
    obtain ⟨n, rfl⟩ := hregular
    exact h.runPending hmirrors.keeps (source.drawSeed_ne_zero n)
  | rehash seed =>
    obtain ⟨n, rfl⟩ := hregular
    exact h.rehash hmirrors.keeps (source.drawSeed_ne_zero n)
  | allocate | retain | drop | intern | internObject | lookup | notifyDead | reportDead
  | transferOverlay | shutdown =>
    exact h.quiet (c.quiet_step rfl)

/-- While a task is under way, no request changes the layout. -/
theorem Errands.layout_of_owned {heap heap' : Heap} {t t' : Table} (h : Errands heap t heap' t')
    (howned : t.owned = true) : t'.layout = t.layout ∧ t'.owned = true := by
  induction h with
  | none => exact ⟨rfl, howned⟩
  | later before hlater ih => exact ih
  | @link heap t o before hlive ih =>
    have hframe := (t.acquire o).2.sameFrame_insertIfAbsent heap o (t.acquire o).1
    exact ⟨hframe.layout.trans ih.1, hframe.owned.trans ih.2⟩
  | run before kind ih =>
    rw [Task.run_of_owned ih.2]
    exact ih
  | aside before listener notices ih => exact ih

namespace Workshop

variable {region : List ObjectId} {w : Workshop} {r : Registry}

/-- What tasks commit, of the interner or of its callers. -/
def commits (w : Workshop) : Deed → List TaskSummary
  | .ask request => w.session.interner.commits request
  | .work action _ => (w.world []).commits action

/-- All that is committed in the course of some deeds. -/
def history (w : Workshop) : List Deed → List TaskSummary
  | [] => []
  | deed :: rest => w.commits deed ++ (w.step deed).history rest

/-- What all alarms come to that are answered in the course of some deeds. -/
def outcomes (w : Workshop) : List Deed → List RehashOutcome
  | [] => []
  | .ask request :: rest =>
    w.session.interner.outcomes request ++ (w.step (.ask request)).outcomes rest
  | .work action htask :: rest => (w.step (.work action htask)).outcomes rest

theorem flag_run (w : Workshop) (deeds : List Deed) :
    (w.run deeds).session.interner.maintenance.rehashed.toNat =
      w.session.interner.maintenance.rehashed.toNat + (w.outcomes deeds).count .rehashed := by
  induction deeds generalizing w with
  | nil => rfl
  | cons deed rest ih =>
    cases deed with
    | ask request =>
      have hfirst := w.session.flag_step request
      have hrest := ih (w.step (.ask request))
      rw [outcomes, List.count_append, ← Nat.add_assoc, ← hfirst]
      exact hrest
    | work action htask => exact ih (w.step (.work action htask))

/-- The interner is on track, and so are the tasks of the callers. -/
structure OnTrack (w : Workshop) : Prop where
  interner : w.session.interner.OnTrack
  guided : (w.world []).Guided

/-- A workshop goes on from one time to another, and stays on track. -/
structure Proceeds (w : Workshop) (ended : List TaskSummary) (w' : Workshop) : Prop where
  leads : Commits w.session.interner.table.layout ended w'.session.interner.table.layout
  onTrack : w'.OnTrack

theorem OnTrack.ask (h : w.OnTrack) (hminded : w.Minded region r) {request : Request}
    (hregular : (Deed.ask request).Regular source) :
    w.Proceeds (w.commits (.ask request)) (w.step (.ask request)) := by
  obtain ⟨hleads, hinterner⟩ := h.interner.request hminded.mirrors hregular
  refine ⟨hleads, hinterner, hinterner.fits, h.guided.plain, fun task htask hunder => ?_⟩
  -- A task that is under way owns the table, so that the layout is still the one that it was
  -- started on.
  obtain ⟨i, hi⟩ := List.mem_iff_getElem?.1 htask
  have howned := (hminded.orderly.drives i task hi hunder).owned
  have hlayout : ((w.step (.ask request)).world []).table.layout = (w.world []).table.layout :=
    (Errands.layout_of_owned (hminded.mirrors.errands request) howned).1
  rw [hlayout]
  exact h.guided.allowed task htask hunder

theorem OnTrack.work (h : w.OnTrack) (hminded : w.Minded region r) {action : Action}
    (htask : action.isTask = true) (hregular : (Deed.work action htask).Regular source) :
    w.Proceeds (w.commits (.work action htask)) (w.step (.work action htask)) := by
  have hends := h.guided.step hminded.orderly htask fun kind chunk heq => by
    subst heq
    exact hregular
  have hproceeds : w.session.interner.Proceeds (w.commits (.work action htask))
      (w.step (.work action htask)).session.interner :=
        h.interner.proceeds hends.leads hends.plain (.refl _)
  obtain ⟨hleads, honTrack⟩ := hproceeds
  exact ⟨hleads, honTrack, hends.guided.fits, hends.guided.plain, hends.guided.allowed⟩

/-- **A workshop stays on track**, whatever is asked of the interner and whatever tasks do. -/
theorem OnTrack.run (h : w.OnTrack) (hminded : w.Minded region r) {deeds : List Deed}
    (hregular : ∀ deed ∈ deeds, deed.Regular source) :
    w.Proceeds (w.history deeds) (w.run deeds) := by
  induction deeds generalizing w r with
  | nil => exact ⟨.none _, h⟩
  | cons deed rest ih =>
    obtain ⟨hfirst, hrest⟩ := List.forall_mem_cons.1 hregular
    cases deed with
    | ask request =>
      obtain ⟨hleads, honTrack⟩ := h.ask hminded hfirst
      obtain ⟨hleads', honTrack'⟩ := ih honTrack (hminded.ask request) hrest
      exact ⟨hleads.append hleads', honTrack'⟩
    | work action htask =>
      obtain ⟨hleads, honTrack⟩ := h.work hminded htask hfirst
      obtain ⟨hleads', honTrack'⟩ := ih honTrack (hminded.work htask) hrest
      exact ⟨hleads.append hleads', honTrack'⟩

/-! ## The beginning -/

/-- The layout of an empty table. -/
def firstLayout (settings : Settings) : Layout where
  log2 := settings.initialLog2
  maxLog2 := settings.maxLog2.toNat
  epoch := .default

theorem fits_firstLayout {settings : Settings} (hcheck : settings.check = .ok ()) :
    (firstLayout settings).Fits := by
  simp only [Settings.check] at hcheck
  split at hcheck
  · cases hcheck
  · split at hcheck
    · cases hcheck
    · next hlimit =>
      split at hcheck
      · cases hcheck
      · next hinitial => exact ⟨Nat.le_of_not_lt hinitial, Nat.le_of_not_lt hlimit⟩

/-- An interner begins on track, and the strings of a snapshot do not take it off when they are
transferred. -/
theorem onTrack_start {settings : Settings} {image : Option Image} {cells : CellStore} {heap : Heap}
    {interner : Interner} (hstart : Interner.start settings image cells heap = .ok interner)
    (held : List ObjectId) :
    OnTrack { session := { interner, held } } ∧ interner.table.layout = firstLayout settings := by
  obtain ⟨hcheck, rfl⟩ := Interner.start_eq_ok_iff.1 hstart
  have hfresh : (Interner.fresh settings image cells heap).OnTrack :=
    ⟨fits_firstLayout hcheck, rfl, rfl, ⟨rfl, rfl⟩⟩
  have hquiet : (Interner.fresh settings image cells heap).Quiet
      (if (Interner.fresh settings image cells heap).overlay.requiresTransfer then
        (Interner.fresh settings image cells heap).transferOverlay.2
      else Interner.fresh settings image cells heap) := by
    split
    · exact (Interner.changes_transferOverlay _).quiet
    · exact .refl _
  have hinterner := (hfresh.quiet hquiet).onTrack
  exact ⟨⟨hinterner, hinterner.fits, fun _ htask => absurd htask List.not_mem_nil,
    fun _ htask => absurd htask List.not_mem_nil⟩, hquiet.layout⟩

/-! ## The course of a run -/

/-- What holds of an interner at any time. -/
structure OnCourse (settings : Settings) (i : Interner) : Prop where
  size : ∃ log2 ≤ settings.maxLog2.toNat, i.table.size = 2 ^ log2
  /-- The table is under the first hash as long as it was not rehashed. -/
  epoch : i.table.epoch = .default ↔ i.maintenance.rehashed = false
  seed : ∀ seed, i.table.epoch = .alternate seed → seed ≠ 0
  /-- The rehash was recorded, and no second one. -/
  recorded : (i.log.events.toList.countP fun e => e.seed?.isSome) = i.maintenance.rehashed.toNat

/-- How an interner goes on while tasks commit and alarms are answered. -/
structure GoesOn (i : Interner) (ended : List TaskSummary) (outcomes : List RehashOutcome)
    (i' : Interner) : Prop where
  /-- Each commit changes the layout as its kind says: growth doubles the size, and a rehash keeps
  it. -/
  leads : Commits i.table.layout ended i'.table.layout
  size : i'.table.size = i.table.size * 2 ^ ended.countP fun summary => summary.kind = .grow
  size_le : i.table.size ≤ i'.table.size
  /-- A table that was rehashed keeps its hash. -/
  epoch : i.maintenance.rehashed = true → i'.maintenance.rehashed = true ∧
    i'.table.epoch = i.table.epoch
  /-- A rehash is committed by the one alarm that it answers. -/
  rehashes : i'.maintenance.rehashed.toNat = i.maintenance.rehashed.toNat +
    outcomes.count .rehashed ∧
    (ended.countP fun summary => summary.kind.seed?.isSome) = outcomes.count .rehashed

variable {i i' : Interner} {ended : List TaskSummary} {outcomes : List RehashOutcome}

theorem length_seeds (h : i.OnTrack) :
    i.table.epoch.seeds.length = i.maintenance.rehashed.toNat := by
  rw [h.rehashed]
  cases i.table.epoch <;> rfl

theorem onCourse_of_onTrack {settings : Settings} (h : i.OnTrack) (hsized : i.table.active.Sized)
    (hleads : Commits (firstLayout settings) ended i.table.layout) : OnCourse settings i where
  size := by
    have hmax : i.table.layout.maxLog2 = settings.maxLog2.toNat := hleads.maxLog2
    exact ⟨i.table.log2, hmax ▸ h.fits.log2_le, Table.size_eq hsized h.fits⟩
  epoch := by
    rw [h.rehashed]
    cases i.table.epoch <;> simp [Epoch.isAlternate]
  seed seed hepoch := by
    have hseeds : i.table.epoch.seeds = ended.filterMap fun summary => summary.kind.seed? :=
      hleads.seeds
    rw [hepoch] at hseeds
    exact hleads.seed_ne_zero (hseeds ▸ List.mem_singleton_self seed)
  recorded := by
    rw [← length_seeds h, ← h.recorded, ← List.length_filterMap_eq_countP]
    rfl

/-- A table that has a seed is not given another one. -/
theorem epoch_eq_of_rehashed (h : i.OnTrack) (hflag : i.maintenance.rehashed = true)
    (hleads : Commits i.table.layout ended i'.table.layout) : i'.table.epoch = i.table.epoch := by
  have hseeds : i'.table.epoch.seeds = i.table.epoch.seeds ++
      ended.filterMap fun summary => summary.kind.seed? :=
    hleads.seeds
  rw [h.rehashed] at hflag
  cases hepoch : i.table.epoch with
  | default =>
    rw [hepoch] at hflag
    cases hflag
  | alternate seed =>
    rw [hepoch] at hseeds
    cases hepoch' : i'.table.epoch with
    | default =>
      rw [hepoch'] at hseeds
      cases hseeds
    | alternate seed' =>
      rw [hepoch'] at hseeds
      rw [(List.cons.inj hseeds).1]

theorem goesOn_of_commits (h : i.OnTrack) (h' : i'.OnTrack) (hsized : i.table.active.Sized)
    (hsized' : i'.table.active.Sized) (hleads : Commits i.table.layout ended i'.table.layout)
    (hflag : i'.maintenance.rehashed.toNat = i.maintenance.rehashed.toNat +
      outcomes.count .rehashed) :
    GoesOn i ended outcomes i' := by
  have hsize : i'.table.size = i.table.size * 2 ^ ended.countP fun summary =>
      summary.kind = .grow := by
    rw [Table.size_eq hsized h.fits, Table.size_eq hsized' h'.fits]
    exact hleads.size
  have hlength := congrArg List.length hleads.seeds
  rw [List.length_append, List.length_filterMap_eq_countP] at hlength
  change i'.table.epoch.seeds.length = i.table.epoch.seeds.length + _ at hlength
  rw [length_seeds h, length_seeds h'] at hlength
  refine ⟨hleads, hsize, ?_, fun hrehashed => ?_, hflag, by omega⟩
  · rw [hsize]
    exact Nat.le_mul_of_pos_right _ (Nat.two_pow_pos _)
  · have hepoch := epoch_eq_of_rehashed h hrehashed hleads
    refine ⟨?_, hepoch⟩
    rw [h'.rehashed, hepoch, ← h.rehashed, hrehashed]

/-- **Sizes and hashes only advance.** An interner is started with any settings that it accepts and
any snapshot. Whatever is asked of it, with seeds from any source of random words, and whatever
tasks of its callers do that do not rehash the table, the size is a power of two that growth alone
changes, and the table is rehashed once at most, which the flag, the log and the hash agree on, with
a seed that is not zero. -/
theorem sizes_and_epochs_advance (source : RandomSource) {settings : Settings}
    {image : Option Image} {cells : CellStore} {heap : Heap} {interner : Interner}
    {held : List ObjectId} (hstart : Interner.start settings image cells heap = .ok interner)
    (hheld : ∀ o, held.count o ≤ heap.refs o) (sofar later : List Deed)
    (hregular : ∀ deed ∈ sofar ++ later, deed.Regular source) :
    let w := run { session := { interner, held } } sofar
    OnCourse settings (w.run later).session.interner ∧
      GoesOn w.session.interner (w.history later) (w.outcomes later)
        (w.run later).session.interner := by
  obtain ⟨hregular₁, hregular₂⟩ := List.forall_mem_append.1 hregular
  obtain ⟨honTrack, hlayout⟩ := onTrack_start hstart held
  have hminded := minded_start hstart hheld
  have hminded₁ := hminded.run sofar
  have hminded₂ := hminded₁.run later
  have hfirst := honTrack.run hminded hregular₁
  have hnext := hfirst.onTrack.run hminded₁ hregular₂
  have hleads := hfirst.leads.append hnext.leads
  rw [show _ = firstLayout settings from hlayout] at hleads
  exact ⟨onCourse_of_onTrack hnext.onTrack.interner hminded₂.orderly.sized hleads,
    goesOn_of_commits hfirst.onTrack.interner hnext.onTrack.interner hminded₁.orderly.sized
      hminded₂.orderly.sized
      hnext.leads (flag_run _ later)⟩

/-- A task of the callers begins to grow the table. -/
def quietDeeds : List Deed :=
  [.ask (.intern "a"), .work (.create .grow none) (.refl true), .work (.prepare 0) (.refl true)]

/-- A source that gives a zero before each seed. -/
def haltingSource : RandomSource where
  word n := if n % 4 = 1 then 7 else if n % 4 = 3 then 9 else 0
  lively n := by
    obtain h | h := Nat.mod_two_eq_zero_or_one n
    · refine ⟨1, ?_⟩
      split
      · decide
      · rw [if_pos (by omega)]
        decide
    · refine ⟨0, ?_⟩
      split
      · decide
      · rw [if_pos (by omega)]
        decide

/-- An alarm is answered while it is under way, and two more after it. At the end another one is
given up. -/
def alarmedDeeds : List Deed :=
  [.ask (.rehash 7), .work (.chunk 0) (.refl true), .work (.commit 0) (.refl true),
    .ask (.rehash 7), .ask (.rehash 9), .ask (.runPending 9),
    .work (.create .grow none) (.refl true), .work (.prepare 1) (.refl true),
    .work (.abandon 1) (.refl true)]

theorem sizes_and_epochs_advance_under_alarm :
    Interner.start World.oneBucket none Interner.ownCells {} = .ok plain.session.interner ∧
      (∀ deed ∈ quietDeeds ++ alarmedDeeds, deed.Regular haltingSource) ∧
      (((plain.run quietDeeds).history alarmedDeeds).map fun summary =>
        (summary.kind, summary.oldSize, summary.newSize)) =
          [(.grow, 1, 2), (.rehash 7, 2, 2), (.bulkDelete, 2, 2), (.grow, 2, 4)] ∧
      (plain.run quietDeeds).outcomes alarmedDeeds = [.busy, .rehashed, .alreadyRehashed] ∧
      OnCourse World.oneBucket ((plain.run quietDeeds).run alarmedDeeds).session.interner ∧
      GoesOn (plain.run quietDeeds).session.interner ((plain.run quietDeeds).history alarmedDeeds)
        ((plain.run quietDeeds).outcomes alarmedDeeds)
    ((plain.run quietDeeds).run alarmedDeeds).session.interner := by
  have hstart : Interner.start World.oneBucket none Interner.ownCells {} =
    .ok plain.session.interner := rfl
  have hheld : ∀ o, List.count o ([] : List ObjectId) ≤ Heap.refs {} o := fun _ => Nat.zero_le _
  have hseven : ∃ n, (haltingSource.drawSeed n).1 = 7 :=
    ⟨0, by simp [RandomSource.drawSeed, haltingSource]⟩
  have hnine : ∃ n, (haltingSource.drawSeed n).1 = 9 :=
    ⟨2, by simp [RandomSource.drawSeed, haltingSource]⟩
  have hregular : ∀ deed ∈ quietDeeds ++ alarmedDeeds, deed.Regular haltingSource := by
    simp [quietDeeds, alarmedDeeds, Deed.Regular, TaskKind.seed?, hseven, hnine]
  have hhistory : (((plain.run quietDeeds).history alarmedDeeds).map fun summary =>
      (summary.kind, summary.oldSize, summary.newSize)) =
        [(.grow, 1, 2), (.rehash 7, 2, 2), (.bulkDelete, 2, 2), (.grow, 2, 4)] := by decide +kernel
  have houtcomes : (plain.run quietDeeds).outcomes alarmedDeeds =
      [.busy, .rehashed, .alreadyRehashed] := by
    decide +kernel
  have hplain : ({ session := { interner := plain.session.interner, held := [] } } : Workshop) =
    plain := rfl
  have hadvance :=
    sizes_and_epochs_advance haltingSource hstart hheld quietDeeds alarmedDeeds hregular
  rw [hplain] at hadvance
  exact ⟨hstart, hregular, hhistory, houtcomes, hadvance⟩

end Workshop

end WeakIntern
