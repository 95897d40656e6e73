import Mathlib.Data.List.ProdSigma
import WeakIntern.CommandLine.Stress
import WeakIntern.Proofs.Flags
/-!
# Stress runs find nothing wrong

In a stress run many callers intern the words of a round at once, that is in any order. Whatever the
orders, an interner with settings that pass the check stands every run (`stress_run_succeeds`):
words with one content become one object, pending work ends after one piece of it at most, no check
fails, and what was kept stands for its content to the end.

The callers hold references to what they interned, so that it stays alive. Hence the registry is
`Firm`: everything that is held stands for a content. An interner that serves a firm registry is
`Fit` for a run, and each call of a run leaves it so.
-/

namespace WeakIntern

open scoped List

/-! ## What is held stands for its content -/

/-- Is the answer, if there is one, an object that stands for its content? -/
def Request.isCanonical : Request → Bool
  | .allocate _ | .retain _ | .internObject _ => false
  | _ => true

namespace Registry

variable {region : List ObjectId} {r : Registry} {o : ObjectId}

/-- Everything that callers hold stands for a content. -/
def Firm (r : Registry) : Prop := ∀ o ∈ r.held, ∃ s, r.map.entry s = some o

/-- What is held after a request was held before or is the answer, and the answer stands for a
content. -/
theorem held_step {request : Request} (hcanonical : request.isCanonical = true)
    (ho : o ∈ (r.step request).2.held) :
    o ∈ r.held ∨ ∃ s, (r.step request).2.map.entry s = some o := by
  cases request with
  | drop p =>
    rw [Registry.step] at ho
    split at ho
    · exact .inl (List.mem_of_mem_erase ho)
    · exact .inl ho
  | intern s =>
    rcases List.mem_cons.1 ho with rfl | ho
    · obtain ⟨p, hanswer, hentry, -⟩ := r.step_intern s
      cases hanswer
      exact .inr ⟨s, hentry⟩
    · exact .inl ho
  | lookup s =>
    rw [Registry.step] at ho ⊢
    cases hentry : r.map.entry s with
    | none =>
      rw [hentry] at ho
      exact .inl ho
    | some p =>
      rw [hentry] at ho
      rcases List.mem_cons.1 ho with rfl | ho
      · exact .inr ⟨s, hentry⟩
      · exact .inl ho
  | notifyDead | reportDead | runPending | rehash | transferOverlay | shutdown => exact .inl ho
  | allocate | retain | internObject => cases hcanonical

theorem Firm.step (h : r.Firm) (hsound : r.Sound region) {request : Request}
    (hcanonical : request.isCanonical = true) :
    (r.step request).2.Firm := by
  intro o ho
  rcases held_step hcanonical ho with hbefore | hstands
  · obtain ⟨s, hentry⟩ := h o hbefore
    exact ⟨s, stays hentry ((hsound.step request).isLive_of_held ho)⟩
  · exact hstands

/-- Of the objects that are held there is one for each content. -/
theorem Firm.entry (h : r.Firm) (hlive : r.map.Live) (ho : o ∈ r.held) :
    r.map.entry (r.map.heap.content o) = some o := by
  obtain ⟨s, hentry⟩ := h o ho
  rw [(hlive s o hentry).2, hentry]

end Registry

/-! ## Between two calls -/

/-- An interner in order, with callers who hold nothing but objects that stand for their
contents. -/
structure Interner.Fit (i : Interner) (held : List ObjectId) : Prop where
  firm : ∃ r : Registry, r.Firm ∧
    Workshop.Tended [] (ownCells.listen listener) { session := { interner := i, held } } r
  attentive : i.Attentive

namespace Interner

variable {i : Interner} {held : List ObjectId} {o p : ObjectId}

/-- **A request** of a run leaves the interner fit. -/
theorem Fit.ask (h : i.Fit held) (request : Request) (hcanonical : request.isCanonical = true)
    {i' : Interner} {held' : List ObjectId}
    (hstep : (Session.step { interner := i, held } request).2 = { interner := i', held := held' }) :
    i'.Fit held' := by
  obtain ⟨r, hfirm, htended⟩ := h.firm
  have hattentive := htended.mirrors.attentive h.attentive request
  have hnext := htended.ask request
  rw [Workshop.step] at hnext
  rw [hstep] at hattentive hnext
  exact ⟨⟨_, hfirm.step htended.mirrors.sound hcanonical, hnext⟩, hattentive⟩

/-- It does not matter in which order references are held. -/
theorem Fit.perm (h : i.Fit held) {held' : List ObjectId} (hperm : held.Perm held') :
    i.Fit held' := by
  obtain ⟨r, hfirm, ⟨hmirrors, htidy, hdistinct⟩⟩ := h.firm
  have hheld : held = r.held := hmirrors.held
  have hsound : Registry.Sound [] { r with held := held' } := by
    refine ⟨hmirrors.sound.live, fun o => ?_⟩
    rw [← hperm.count_eq o, hheld]
    exact hmirrors.sound.backed o
  have hfirm' : Registry.Firm { r with held := held' } :=
    fun o ho => hfirm o (hheld ▸ hperm.mem_iff.2 ho)
  exact ⟨⟨_, hfirm', ⟨hsound, rfl, hmirrors.keeps, hmirrors.overlay⟩, htidy, hdistinct⟩,
    h.attentive⟩

theorem Fit.keeps (h : i.Fit held) :
    ∃ m, i.Keeps m ∧ ∀ o ∈ held, m.entry (i.heap.content o) = some o ∧ i.heap.isLive o = true := by
  obtain ⟨r, hfirm, htended⟩ := h.firm
  have hmirrors := htended.mirrors
  refine ⟨r.map, hmirrors.keeps, fun o ho => ?_⟩
  have hheld : o ∈ r.held := hmirrors.held ▸ ho
  rw [show i.heap = r.map.heap from hmirrors.heap]
  exact ⟨hfirm.entry hmirrors.sound.live hheld, hmirrors.sound.isLive_of_held hheld⟩

/-- **What is held is canonical**: one content, one object. -/
theorem Fit.canonical (h : i.Fit held) (ho : o ∈ held) (hp : p ∈ held)
    (hcontent : i.heap.content o = i.heap.content p) :
    o = p := by
  obtain ⟨m, -, hentry⟩ := h.keeps
  have hsame := (hentry o ho).1
  rw [hcontent, (hentry p hp).1] at hsame
  exact (Option.some.inj hsame).symm

theorem Fit.verified (h : i.Fit held) : i.Verified := by
  obtain ⟨r, -, htended⟩ := h.firm
  exact htended.verified (htended.minded.orderly.atRest fun task htask =>
    absurd htask List.not_mem_nil).free

theorem Fit.doubleReleases (h : i.Fit held) : i.table.cells.doubleReleases = 0 := by
  obtain ⟨r, -, htended⟩ := h.firm
  obtain ⟨passed, htidy⟩ := htended.tidy
  exact htidy.kept.doubleReleases

/-! ## The calls of a run -/

theorem Fit.intern (h : i.Fit held) (s : String) :
    (i.intern s).2.Fit ((i.intern s).1 :: held) ∧
      (i.intern s).2.heap.content (i.intern s).1 = s := by
  refine ⟨h.ask (.intern s) rfl rfl, ?_⟩
  obtain ⟨r, -, htended⟩ := h.firm
  obtain ⟨hanswer, hmirrors⟩ := htended.mirrors.step (.intern s)
  obtain ⟨o, hgiven, hentry, -⟩ := r.step_intern s
  obtain rfl : (i.intern s).1 = o := Option.some.inj (hanswer.trans hgiven)
  rw [show (i.intern s).2.heap = _ from hmirrors.heap]
  exact (hmirrors.sound.live s _ hentry).2

theorem Fit.dropReference (h : i.Fit (o :: held)) : (i.dropReference o).Fit held := by
  refine h.ask (.drop o) rfl ?_
  rw [Session.step, if_pos List.mem_cons_self, List.erase_cons_head]

theorem Fit.dropAll {objects : List ObjectId} (h : i.Fit (objects ++ held)) :
    (objects.foldl Interner.dropReference i).Fit held := by
  induction objects generalizing i with
  | nil => exact h
  | cons o rest ih => exact ih h.dropReference

theorem Fit.reportDead (h : i.Fit held) : i.reportDead.2.Fit held := h.ask .reportDead rfl rfl

theorem Fit.runPending (h : i.Fit held) (seed : UInt64) : (i.runPending seed).2.Fit held :=
  h.ask (.runPending seed) rfl rfl

/-- **What is held is found.** -/
theorem Fit.lookup? (h : i.Fit held) (ho : o ∈ held) :
    (i.lookup? (i.heap.content o)).1 = some o ∧
      (i.lookup? (i.heap.content o)).2.Fit (o :: held) := by
  obtain ⟨m, hkeeps, hentry⟩ := h.keeps
  have hfound := (hkeeps.lookup? (i.heap.content o)).1
  rw [(hentry o ho).1] at hfound
  refine ⟨hfound, h.ask (.lookup (i.heap.content o)) rfl ?_⟩
  rw [Session.step]
  generalize i.lookup? (i.heap.content o) = result at hfound ⊢
  obtain ⟨found, i'⟩ := result
  dsimp only at hfound
  subst hfound
  rfl

end Interner

/-! ## Any order -/

/-- What was answered in an order, arranged by the places that the order lists. -/
def arrange {α : Type} [Inhabited α] (order : List Nat) (answers : List α) : List α :=
  (List.range order.length).map fun place => answers.getD (order.idxOf place) default

section arrange

variable {α β : Type} [Inhabited α] {order : List Nat} {answers : List α}

theorem map_getD_idxOf (hnodup : order.Nodup) (hlength : answers.length = order.length) :
    order.map (fun place => answers.getD (order.idxOf place) default) = answers := by
  refine List.ext_getElem (by simp [hlength]) fun k hk _ => ?_
  rw [List.length_map] at hk
  rw [List.getElem_map, hnodup.idxOf_getElem, List.getD_eq_getElem?_getD,
    List.getElem?_eq_getElem (hlength ▸ hk), Option.getD_some]

theorem arrange_perm (horder : order.Perm (List.range order.length))
    (hlength : answers.length = order.length) :
    (arrange order answers).Perm answers := by
  have hnodup : order.Nodup := horder.nodup_iff.2 List.nodup_range
  have hperm := horder.symm.map fun place => answers.getD (order.idxOf place) default
  rw [map_getD_idxOf hnodup hlength] at hperm
  exact hperm

/-- The natural order need not be arranged. -/
theorem arrange_range {n : Nat} (hlength : answers.length = n) :
    arrange (List.range n) answers = answers := by
  rw [arrange, List.length_range]
  exact map_getD_idxOf List.nodup_range (by rw [hlength, List.length_range])

/-- What belongs to a place is found in that place. -/
theorem map_arrange (horder : order.Perm (List.range order.length)) {f : α → β} {g : Nat → β}
    (hanswers : answers.map f = order.map g) :
    (arrange order answers).map f = (List.range order.length).map g := by
  have hlength : answers.length = order.length := by simpa using congrArg List.length hanswers
  rw [arrange, List.map_map]
  refine List.map_congr_left fun place hplace => ?_
  have hlt : order.idxOf place < order.length :=
    List.idxOf_lt_length_iff.2 (horder.mem_iff.2 hplace)
  have hplaced : (answers.map f)[order.idxOf place]? = (order.map g)[order.idxOf place]? := by
    rw [hanswers]
  rw [List.getElem?_map, List.getElem?_map, List.getElem?_eq_getElem hlt, List.getElem_idxOf hlt,
    List.getElem?_eq_getElem (hlength ▸ hlt)] at hplaced
  rw [Function.comp_apply, List.getD_eq_getElem?_getD, List.getElem?_eq_getElem (hlength ▸ hlt),
    Option.getD_some]
  exact Option.some.inj hplaced

end arrange

namespace CommandLine

open Interner

/-- Intern the word of each place, in the order of places that is given. The objects are answered by
their places. -/
def internInOrder (i : Interner) (order : List Nat) (word : Nat → String) :
    List ObjectId × Interner :=
  let (objects, i) := internAll i (order.map word)
  (arrange order objects, i)

/-- A round after its words were interned. -/
def finishRound (attempts : Nat) (seed : UInt64) (state : StressState) (round : Nat)
    (values : List ObjectId) (i : Interner) : Except Trouble StressState := do
  checkCanonical i.heap values
  let (kept, rest) := values.partition (isKept i.heap)
  let (dead, i) := (rest.foldl dropReference i).reportDead
  let (passes, i) := runAll seed attempts i
  let (failures, i) := i.verifyAndCompare
  if 0 < failures then
    throw (.verification (toString failures ++ " problems after round " ++ toString round))
  return {
    interner := i
    kept := state.kept ++ kept
    report :=
      { interned := state.report.interned + values.length
        kept := state.report.kept + kept.length
        reportedDead := state.report.reportedDead + dead
        maintenancePasses := state.report.maintenancePasses + passes.length } }

/-- A round in which the words are interned in some order. -/
def stressRoundIn (attempts words : Nat) (seed : UInt64) (order : List Nat) (state : StressState)
    (round : Nat) :
    Except Trouble StressState :=
  let (values, i) := internInOrder state.interner order (stressWord round words)
  finishRound attempts seed state round values i

/-- The rounds of a run, each with an order and a seed of its own. -/
def stressRounds (attempts words : Nat) (seeds : Nat → UInt64) (orders : Nat → List Nat)
    (i : Interner) (rounds : Nat) :
    Except Trouble StressState :=
  (List.range rounds).foldlM
    (fun state round => stressRoundIn attempts words (seeds round) (orders round) state round)
      { interner := i }

/-- A run in which the words of each round are interned in some order, and pending work is attempted
a number of times. -/
def stressRun (attempts words : Nat) (seeds : Nat → UInt64) (orders : Nat → List Nat) (i : Interner)
    (rounds : Nat) :
    Except Trouble (StressReport × Interner) := do
  let state ← stressRounds attempts words seeds orders i rounds
  let i ← state.kept.foldlM checkKept state.interner
  return (state.report, state.kept.foldl dropReference i)

theorem length_internAll (i : Interner) (strings : List String) :
    (internAll i strings).1.length = strings.length := by
  induction strings generalizing i with
  | nil => rfl
  | cons s rest ih => exact congrArg (· + 1) (ih _)

theorem internInOrder_range (i : Interner) (n : Nat) (word : Nat → String) :
    internInOrder i (List.range n) word = internAll i ((List.range n).map word) := by
  have hlength : (internAll i ((List.range n).map word)).1.length = n := by simp [length_internAll]
  exact Prod.ext (arrange_range hlength) rfl

/-- The natural order is one of them. -/
theorem stressTable_eq (i : Interner) (words rounds : Nat) (seed : UInt64) :
    stressTable i words rounds seed = stressRun 2 words (fun _ => seed)
    (fun _ => List.range words) i rounds := by
  have hround : stressRound words seed = stressRoundIn 2 words seed (List.range words) := by
    funext state round
    rw [stressRoundIn, internInOrder_range]
    rfl
  rw [stressTable, hround]
  rfl

/-! ## A round -/

variable {i : Interner} {held : List ObjectId} {heap : Heap}

theorem runs_internAll (i : Interner) (strings : List String) : i.Runs (internAll i strings).2 := by
  induction strings generalizing i with
  | nil => exact .refl i
  | cons s rest ih => exact (i.runs_intern s).trans (ih _)

/-- **Every word** becomes an object with just that content. -/
theorem fit_internAll (h : i.Fit held) (strings : List String) :
    (internAll i strings).2.Fit ((internAll i strings).1 ++ held) ∧
      (internAll i strings).1.map (internAll i strings).2.heap.content = strings := by
  induction strings generalizing i held with
  | nil => exact ⟨h, rfl⟩
  | cons s rest ih =>
    obtain ⟨hfit, hcontent⟩ := h.intern s
    obtain ⟨hfit', hcontents⟩ := ih hfit
    refine ⟨hfit'.perm List.perm_middle, ?_⟩
    -- The first object keeps its content while the others are interned.
    obtain ⟨m, -, hheld⟩ := hfit.keeps
    have hknows := Heap.knows_of_isLive (hheld _ List.mem_cons_self).2
    have hlater := (runs_internAll (i.intern s).2 rest).heap_later.content _ hknows
    exact List.cons_eq_cons.2 ⟨hlater.trans hcontent, hcontents⟩

theorem fit_internInOrder (h : i.Fit held) {words : Nat} {order : List Nat}
    (horder : order.Perm (List.range words)) (word : Nat → String) :
    (internInOrder i order word).2.Fit ((internInOrder i order word).1 ++ held) ∧
      (internInOrder i order word).1.map (internInOrder i order word).2.heap.content =
        (List.range words).map word := by
  have hlength : order.length = words := by simpa using horder.length_eq
  subst hlength
  obtain ⟨hfit, hcontents⟩ := fit_internAll h (order.map word)
  have hperm :
      (arrange order (internAll i (order.map word)).1).Perm (internAll i (order.map word)).1 :=
    arrange_perm horder (by simp [length_internAll])
  exact ⟨hfit.perm (hperm.symm.append_right held), map_arrange horder hcontents⟩

/-- Of a list in which there is one object for each content, none is a copy. -/
theorem copies_eq_nil {objects : List ObjectId}
    (h : ∀ o ∈ objects, ∀ p ∈ objects, heap.content o = heap.content p → o = p) :
    copies heap objects = [] := by
  simp only [copies, List.flatMap_eq_nil_iff, List.filter_eq_nil_iff]
  intro group hgroup o ho
  have hmem : ∀ p ∈ group, p ∈ objects := by
    intro p hp
    have hsorted := List.mem_flatten_of_mem hgroup hp
    rw [List.flatten_splitBy] at hsorted
    exact (List.mergeSort_perm _ _).mem_iff.1 hsorted
  have hchain : group.IsChain fun a b => heap.content a = heap.content b :=
    (List.isChain_of_mem_splitBy hgroup).imp fun a b hab => by simpa using hab
  have : Trans (fun a b => heap.content a = heap.content b)
      (fun a b => heap.content a = heap.content b)
      (fun a b => heap.content a = heap.content b) := ⟨Eq.trans⟩
  -- A group has one content, and so it has only the object that it begins with.
  have hfirst : group.head? = some o := by
    cases group with
    | nil => cases ho
    | cons a rest =>
      rcases List.mem_cons.1 ho with rfl | hrest
      · rfl
      · have hcontent := (List.pairwise_cons.1 (List.isChain_iff_pairwise.1 hchain)).1 o hrest
        exact congrArg some (h a (hmem a List.mem_cons_self) o (hmem o ho) hcontent)
  simp [hfirst]

theorem checkCanonical_of_canonical {objects : List ObjectId}
    (h : ∀ o ∈ objects, ∀ p ∈ objects, heap.content o = heap.content p → o = p) :
    checkCanonical heap objects = .ok () := by
  have hnone : objects.find? (copies heap objects).contains = none := by
    simp [copies_eq_nil h]
  rw [checkCanonical, hnone]

/-- A round that found nothing wrong, with what there was once its words were interned. -/
structure FlawlessRound (words round : Nat) (interned : List ObjectId × Interner)
    (before after : StressState) : Prop where
  /-- The object in a place has the content of its word, -/
  contents : interned.1.map interned.2.heap.content =
    (List.range words).map (stressWord round words)
  /-- and one content has one object. -/
  canonical : ∀ o ∈ interned.1, ∀ p ∈ interned.1, interned.2.heap.content o =
    interned.2.heap.content p → o = p
  /-- At most one piece of work was done, and that left none. -/
  passes : after.report.maintenancePasses ≤ before.report.maintenancePasses + 1
  idle : ∀ seed, after.interner.runPending seed = (none, after.interner)
  verified : after.interner.verifyAndCompare.1 = 0
  /-- Whatever was kept so far stands for its content. -/
  kept : ∀ o ∈ after.kept, (after.interner.lookup? (after.interner.heap.content o)).1 = some o
  doubleReleases : after.interner.table.cells.doubleReleases = 0

/-- The places of words that are kept, with their rounds. -/
def keptPlaces (words rounds : Nat) : List (Nat × Nat) :=
  (List.range rounds ×ˢ List.range words).filter fun (round, place) =>
    (utf8Bytes (stressWord round words place)).length % 2 = 0

theorem length_keptPlaces_succ (words rounds : Nat) : (keptPlaces words (rounds + 1)).length =
    (keptPlaces words rounds).length +
      ((List.range words).filter fun place =>
        (utf8Bytes (stressWord rounds words place)).length % 2 = 0).length := by
  have hsplit : (List.range (rounds + 1) ×ˢ List.range words) =
      (List.range rounds ×ˢ List.range words) ++ (List.range words).map fun place =>
        (rounds, place) := by
    rw [List.range_succ]
    simp [SProd.sprod, List.product]
  rw [keptPlaces, hsplit, List.filter_append, List.length_append, List.filter_map, List.length_map]
  rfl

/-- How many objects of a round are kept can be told by its words. -/
theorem length_filter_isKept {values : List ObjectId} {words : List String}
    (h : values.map heap.content = words) :
    (values.filter (isKept heap)).length =
      (words.filter fun s => (utf8Bytes s).length % 2 = 0).length := by
  rw [← h, List.filter_map, List.length_map]
  rfl

variable {attempts words : Nat} {before : StressState}

/-- **The rest of a round** finds nothing wrong. -/
theorem finishRound_eq_ok {values : List ObjectId} (h : i.Fit (values ++ before.kept))
    (hattempts : 2 ≤ attempts) (seed : UInt64) (round : Nat) :
    ∃ after, finishRound attempts seed before round values i = .ok after ∧
      after.interner.Fit after.kept ∧
      (∀ seed', after.interner.runPending seed' = (none, after.interner)) ∧
      after.report.interned = before.report.interned + values.length ∧
      after.report.kept = before.report.kept + (values.filter (isKept i.heap)).length ∧
      after.report.maintenancePasses ≤ before.report.maintenancePasses + 1 := by
  have hcanonical := checkCanonical_of_canonical fun o ho p hp =>
    h.canonical (List.mem_append_left _ ho) (List.mem_append_left _ hp)
  -- The references that are not kept can be put first, and given up.
  have hperm : values ++ before.kept ~
      values.filter (not ∘ isKept i.heap) ++ (before.kept ++ values.filter (isKept i.heap)) :=
    calc values ++ before.kept
      _ ~ (values.filter (isKept i.heap) ++ values.filter (not ∘ isKept i.heap)) ++ before.kept :=
        (List.filter_append_perm _ values).symm.append_right _
      _ ~ (values.filter (not ∘ isKept i.heap) ++ values.filter (isKept i.heap)) ++ before.kept :=
        List.perm_append_comm.append_right _
      _ = values.filter (not ∘ isKept i.heap) ++ (values.filter (isKept i.heap) ++ before.kept) :=
        List.append_assoc ..
      _ ~ values.filter (not ∘ isKept i.heap) ++ (before.kept ++ values.filter (isKept i.heap)) :=
        List.perm_append_comm.append_left _
  have hreported := (h.perm hperm).dropAll.reportDead
  have hdone := hreported.runPending seed
  generalize hdead : ((values.filter (not ∘ isKept i.heap)).foldl dropReference i).reportDead =
    reported at hreported hdone
  obtain ⟨m, hkeeps, -⟩ := hreported.keeps
  have hloop := hreported.attentive.runAll hkeeps seed hattempts
  obtain ⟨-, -, hwork, halarm⟩ := hreported.attentive.runPending hkeeps seed
  generalize reported.2.runPending seed = done at hdone hloop hwork halarm
  have hverify := hdone.verified.verifyAndCompare_eq
  have hpasses : done.1.toList.length ≤ 1 := by cases done.1 <;> simp
  refine ⟨{
    interner := done.2
    kept := before.kept ++ values.filter (isKept i.heap)
    report :=
      { interned := before.report.interned + values.length
        kept := before.report.kept + (values.filter (isKept i.heap)).length
        reportedDead := before.report.reportedDead + reported.1
        maintenancePasses := before.report.maintenancePasses + done.1.toList.length } }, ?_, hdone,
    runPending_of_idle halarm hwork, rfl, rfl, Nat.add_le_add_left hpasses _⟩
  simp only [finishRound, hcanonical, List.partition_eq_filter_filter, hdead, hloop, hverify,
    Nat.lt_irrefl, if_false]
  rfl

/-- **A round** finds nothing wrong, in whatever order its words are interned. -/
theorem stressRoundIn_eq_ok (h : before.interner.Fit before.kept) (hattempts : 2 ≤ attempts)
    {order : List Nat} (horder : order.Perm (List.range words)) (seed : UInt64) (round : Nat) :
    ∃ after, stressRoundIn attempts words seed order before round = .ok after ∧
      FlawlessRound words round (internInOrder before.interner order (stressWord round words))
        before after ∧
      after.interner.Fit after.kept ∧
      after.report.interned = before.report.interned + words ∧
      after.report.kept = before.report.kept +
        ((List.range words).filter fun place =>
          (utf8Bytes (stressWord round words place)).length % 2 = 0).length := by
  obtain ⟨hfit, hcontents⟩ := fit_internInOrder h horder (stressWord round words)
  have hlength :
      (internInOrder before.interner order (stressWord round words)).1.length = words := by
    simpa using congrArg List.length hcontents
  obtain ⟨after, heq, hafter, hidle, hinterned, hkept, hpasses⟩ :=
    finishRound_eq_ok hfit hattempts seed round
  rw [hlength] at hinterned
  rw [length_filter_isKept hcontents, List.filter_map, List.length_map] at hkept
  refine ⟨after, heq, ?_, hafter, hinterned, hkept⟩
  exact
    { contents := hcontents
      canonical :=
        fun o ho p hp => hfit.canonical (List.mem_append_left _ ho) (List.mem_append_left _ hp)
      passes := hpasses
      idle := hidle
      verified := congrArg Prod.fst hafter.verified.verifyAndCompare_eq
      kept := fun o ho => (hafter.lookup? ho).1
      doubleReleases := hafter.doubleReleases }

/-! ## A run -/

theorem stressRounds_succ (attempts words : Nat) (seeds : Nat → UInt64) (orders : Nat → List Nat)
    (i : Interner) (rounds : Nat) :
    stressRounds attempts words seeds orders i (rounds + 1) =
      (stressRounds attempts words seeds orders i rounds >>= fun state =>
        stressRoundIn attempts words (seeds rounds) (orders rounds) state rounds) := by
  rw [stressRounds, List.range_succ, List.foldlM_append]
  refine congrArg _ (funext fun state => ?_)
  rw [List.foldlM_cons]
  exact bind_pure _

/-- **The rounds** go well, one after another. -/
theorem stressRounds_eq_ok (h : i.Fit []) (hattempts : 2 ≤ attempts) (seeds : Nat → UInt64)
    {orders : Nat → List Nat} (horders : ∀ round, (orders round).Perm (List.range words))
    (rounds : Nat) :
    ∃ state, stressRounds attempts words seeds orders i rounds = .ok state ∧
      state.interner.Fit state.kept ∧
      state.report.interned = words * rounds ∧
        state.report.kept = (keptPlaces words rounds).length ∧
      state.report.maintenancePasses ≤ rounds := by
  induction rounds with
  | zero => exact ⟨{ interner := i }, rfl, h, rfl, rfl, Nat.le_refl 0⟩
  | succ rounds ih =>
    obtain ⟨state, heq, hfit, hinterned, hkept, hpasses⟩ := ih
    obtain ⟨after, hround, hflawless, hfit', hinterned', hkept'⟩ :=
      stressRoundIn_eq_ok hfit hattempts (horders rounds) (seeds rounds) rounds
    refine ⟨after, ?_, hfit', ?_, ?_, ?_⟩
    · rw [stressRounds_succ, heq]
      exact hround
    · rw [hinterned', hinterned, Nat.mul_succ]
    · rw [hkept', hkept, length_keptPlaces_succ]
    · exact hflawless.passes.trans (Nat.add_le_add_right hpasses 1)

/-- What was kept is checked, and nothing is lost by it. -/
theorem checkAll_eq_ok {objects : List ObjectId} (h : i.Fit held)
    (hobjects : ∀ o ∈ objects, o ∈ held) :
    ∃ i', objects.foldlM checkKept i = .ok i' ∧ i'.Fit held := by
  induction objects generalizing i with
  | nil => exact ⟨i, rfl, h⟩
  | cons o rest ih =>
    obtain ⟨hfound, hfit⟩ := h.lookup? (hobjects o List.mem_cons_self)
    obtain ⟨i', hrest, hfit'⟩ :=
      ih hfit.dropReference fun p hp => hobjects p (List.mem_cons_of_mem _ hp)
    have hcheck : checkKept i o = .ok ((i.lookup? (i.heap.content o)).2.dropReference o) := by
      rw [checkKept]
      dsimp only
      rw [if_pos hfound]
    refine ⟨i', ?_, hfit'⟩
    rw [List.foldlM_cons, hcheck]
    exact hrest

/-- **An interner is fit** when it starts. -/
theorem fit_start {settings : Settings}
    (hstart : Interner.start settings none ownCells heap = .ok i) : i.Fit [] := by
  have hheld : ∀ o, List.count o ([] : List ObjectId) ≤ heap.refs o := fun _ => Nat.zero_le _
  refine ⟨⟨.start heap none [], nofun, ?_⟩, Workshop.attentive_start hstart⟩
  exact Workshop.tended_start hstart hheld (fun _ hsnapshot => by cases hsnapshot)

/-- **Stress runs succeed.** An interner starts with any settings that pass the check, in any heap.
Whatever the words and rounds of a run, and in whatever orders the words are interned, no round
finds anything wrong, and neither does the end. The run with the natural order is the one that the
command makes. -/
theorem stress_run_succeeds {settings : Settings} (hcheck : settings.check = .ok ()) (heap : Heap)
    (words rounds : Nat) (seeds : Nat → UInt64) {attempts : Nat} (hattempts : 2 ≤ attempts)
    {orders : Nat → List Nat} (horders : ∀ round, (orders round).Perm (List.range words)) :
    ∃ i, Interner.start settings none ownCells heap = .ok i ∧
      (∀ seed, stressTable i words rounds seed =
        stressRun 2 words (fun _ => seed) (fun _ => List.range words) i rounds) ∧
      (∀ round, ∃ before after, stressRounds attempts words seeds orders i round = .ok before ∧
        stressRounds attempts words seeds orders i (round + 1) = .ok after ∧
        FlawlessRound words round
          (internInOrder before.interner (orders round) (stressWord round words)) before after) ∧
      ∃ report i', stressRun attempts words seeds orders i rounds = .ok (report, i') ∧
        report.interned = words * rounds ∧ report.maintenancePasses ≤ rounds ∧
        report.kept = (keptPlaces words rounds).length ∧ i'.table.cells.doubleReleases = 0 := by
  have hstart : Interner.start settings none ownCells heap =
      .ok (.fresh settings none ownCells heap) :=
    start_eq_ok_iff.2 ⟨hcheck, rfl⟩
  have hfit := fit_start hstart
  refine ⟨_, hstart, stressTable_eq _ words rounds, ?_, ?_⟩
  · intro round
    obtain ⟨before, heq, hbefore, -⟩ := stressRounds_eq_ok hfit hattempts seeds horders round
    obtain ⟨after, hround, hflawless, -⟩ :=
      stressRoundIn_eq_ok hbefore hattempts (horders round) (seeds round) round
    refine ⟨before, after, heq, ?_, hflawless⟩
    rw [stressRounds_succ, heq]
    exact hround
  · obtain ⟨state, heq, hend, hinterned, hkept, hpasses⟩ :=
      stressRounds_eq_ok hfit hattempts seeds horders rounds
    obtain ⟨i', hchecked, hfit'⟩ := checkAll_eq_ok hend fun o ho => ho
    have hlast : (state.kept.foldl dropReference i').Fit [] := by
      refine Fit.dropAll ?_
      rw [List.append_nil]
      exact hfit'
    refine ⟨state.report, state.kept.foldl dropReference i', ?_, hinterned, hpasses, hkept,
      hlast.doubleReleases⟩
    rw [stressRun, heq]
    show (state.kept.foldlM checkKept state.interner >>=
      fun i => pure (state.report, state.kept.foldl dropReference i)) = _
    rw [hchecked]
    rfl

/-- Words with two digits are kept, and they are interned from the last place to the first. -/
theorem stress_run_succeeds_backwards :
    World.oneBucket.check = .ok () ∧ (∀ _ : Nat, (List.range 24).reverse.Perm (List.range 24)) ∧
      (keptPlaces 24 2).length = 8 ∧
      ∃ i, Interner.start World.oneBucket none ownCells {} = .ok i ∧
        ∃ report i', stressRun 2 24 (fun _ => 7) (fun _ => (List.range 24).reverse) i 2 =
          .ok (report, i') ∧
          report.interned = 48 ∧ report.maintenancePasses ≤ 2 ∧ report.kept = 8 ∧
            i'.table.cells.doubleReleases = 0 := by
  have hcheck : World.oneBucket.check = .ok () := rfl
  have horders : ∀ _ : Nat, (List.range 24).reverse.Perm (List.range 24) :=
    fun _ => List.reverse_perm _
  have hplaces : (keptPlaces 24 2).length = 8 := by decide +kernel
  obtain ⟨i, hstart, -, -, report, i', hrun, hinterned, hpasses, hkept, hreleases⟩ :=
    stress_run_succeeds hcheck {} 24 2 (fun _ => 7) (Nat.le_refl 2) horders
  exact ⟨hcheck, horders, hplaces, i, hstart, report, i', hrun, hinterned, hpasses,
    hkept.trans hplaces, hreleases⟩

end CommandLine

end WeakIntern
