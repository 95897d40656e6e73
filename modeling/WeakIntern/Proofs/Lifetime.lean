import WeakIntern.Heap
/-!
# The life of objects

Over time a heap only gets `Later`: an object keeps its content for good, and one that has died
stays dead. What a heap does not know yet may still become anything.
-/

namespace WeakIntern

namespace Heap

/-- The identity was given out. -/
def Knows (h : Heap) (o : ObjectId) : Prop := o.index < h.objects.size

/-- A later state of the heap. -/
structure Later (h h' : Heap) : Prop where
  knows : ∀ o, h.Knows o → h'.Knows o
  content : ∀ o, h.Knows o → h'.content o = h.content o
  live : ∀ o, h.Knows o → h'.isLive o = true → h.isLive o = true

theorem Later.refl (h : Heap) : Later h h := ⟨fun _ ho => ho, fun _ _ => rfl, fun _ _ ho => ho⟩

theorem Later.trans {h₁ h₂ h₃ : Heap} (h₁₂ : Later h₁ h₂) (h₂₃ : Later h₂ h₃) : Later h₁ h₃ where
  knows o ho := h₂₃.knows o (h₁₂.knows o ho)
  content o ho := (h₂₃.content o (h₁₂.knows o ho)).trans (h₁₂.content o ho)
  live o ho hl := h₁₂.live o ho (h₂₃.live o (h₁₂.knows o ho) hl)

theorem isLive_iff {h : Heap} {o : ObjectId} : h.isLive o = true ↔ h.refs o ≠ 0 := by
  simp [isLive]

theorem knows_of_refs {h : Heap} {o : ObjectId} (ho : h.refs o ≠ 0) : h.Knows o := by
  unfold refs at ho
  split at ho
  · next hget => exact (Array.getElem?_eq_some_iff.1 hget).1
  · exact absurd rfl ho

theorem knows_of_isLive {h : Heap} {o : ObjectId} (ho : h.isLive o = true) : h.Knows o :=
  knows_of_refs (isLive_iff.1 ho)

/-! ## Allocation -/

theorem not_knows_alloc (h : Heap) (s : String) : ¬ h.Knows (h.alloc s).1 :=
  Nat.lt_irrefl _

theorem knows_alloc {h : Heap} {s : String} {o : ObjectId} :
    (h.alloc s).2.Knows o ↔ h.Knows o ∨ o = (h.alloc s).1 := by
  cases o
  simp only [Knows, alloc, Array.size_push, ObjectId.mk.injEq]
  omega

theorem getElem?_alloc {h : Heap} {s : String} {o : ObjectId} (ho : h.Knows o) :
    (h.alloc s).2.objects[o.index]? = h.objects[o.index]? := by
  have hne : o.index ≠ h.objects.size := Nat.ne_of_lt ho
  simp only [alloc, Array.getElem?_push, if_neg hne]

theorem content_alloc {h : Heap} {s : String} {o : ObjectId} (ho : h.Knows o) :
    (h.alloc s).2.content o = h.content o := by
  simp only [content, getElem?_alloc ho]

theorem refs_alloc {h : Heap} {s : String} {o : ObjectId} (ho : h.Knows o) :
    (h.alloc s).2.refs o = h.refs o := by
  simp only [refs, getElem?_alloc ho]

theorem content_alloc_self (h : Heap) (s : String) : (h.alloc s).2.content (h.alloc s).1 = s := by
  simp [content, alloc]

theorem refs_alloc_self (h : Heap) (s : String) : (h.alloc s).2.refs (h.alloc s).1 = 1 := by
  simp [refs, alloc]

theorem refs_of_not_knows {h : Heap} {o : ObjectId} (ho : ¬ h.Knows o) : h.refs o = 0 :=
  Decidable.not_not.1 fun hrefs => ho (knows_of_refs hrefs)

theorem refs_alloc_eq (h : Heap) (s : String) (o : ObjectId) :
    (h.alloc s).2.refs o = if o = (h.alloc s).1 then 1 else h.refs o := by
  split
  · next ho => rw [ho, refs_alloc_self]
  · next ho =>
    by_cases hknows : h.Knows o
    · exact refs_alloc hknows
    · rw [refs_of_not_knows hknows, refs_of_not_knows]
      exact fun hknows' => (knows_alloc.1 hknows').elim hknows ho

theorem isLive_alloc_self (h : Heap) (s : String) : (h.alloc s).2.isLive (h.alloc s).1 = true := by
  simp [isLive, refs_alloc_self]

theorem isLive_alloc {h : Heap} {s : String} {o : ObjectId} (ho : h.Knows o) :
    (h.alloc s).2.isLive o = h.isLive o := by
  simp only [isLive, refs_alloc ho]

theorem later_alloc (h : Heap) (s : String) : Later h (h.alloc s).2 where
  knows _ ho := knows_alloc.2 (.inl ho)
  content _ ho := content_alloc ho
  live _ ho hl := by rwa [isLive_alloc ho] at hl

/-! ## References -/

theorem knows_drop {h : Heap} {o p : ObjectId} : (h.drop o).Knows p ↔ h.Knows p := by
  simp [Knows, drop]

theorem knows_retain {h : Heap} {o p : ObjectId} : (h.retain o).Knows p ↔ h.Knows p := by
  simp [Knows, retain]

theorem refs_retain (h : Heap) (o p : ObjectId) :
    (h.retain o).refs p = if p = o ∧ h.refs p ≠ 0 then h.refs p + 1 else h.refs p := by
  cases o with | mk i
  cases p with | mk j
  simp only [refs, retain, Array.getElem?_modify, ObjectId.mk.injEq]
  by_cases hij : i = j
  · subst hij
    cases h.objects[i]? with
    | none => simp
    | some object => by_cases hdead : object.refs = 0 <;> simp [hdead]
  · simp [hij, Ne.symm hij]

theorem isLive_retain (h : Heap) (o p : ObjectId) : (h.retain o).isLive p = h.isLive p := by
  simp only [isLive, refs_retain]
  split
  · next hp => simp [hp.2]
  · rfl

theorem isLive_of_isLive_drop {h : Heap} {o p : ObjectId} (hp : (h.drop o).isLive p = true) :
    h.isLive p = true := by
  by_cases hpo : p = o
  · subst hpo
    rw [isLive_iff, refs_drop_self] at hp
    exact isLive_iff.2 (by omega)
  · rwa [isLive_drop_other h hpo] at hp

theorem later_retain (h : Heap) (o : ObjectId) : Later h (h.retain o) where
  knows _ hp := knows_retain.2 hp
  content p _ := content_retain h o p
  live p _ hl := by rwa [isLive_retain] at hl

theorem later_drop (h : Heap) (o : ObjectId) : Later h (h.drop o) where
  knows _ hp := knows_drop.2 hp
  content p _ := content_drop h o p
  live _ _ hl := isLive_of_isLive_drop hl

/-- A reference that is given up at once was none. -/
theorem drop_retain (h : Heap) (o : ObjectId) : (h.retain o).drop o = h := by
  have hdead (object : HeapObject) (hrefs : object.refs = 0) :
      { object with refs := object.refs - 1 } = object := by
    cases object
    simp_all
  cases h with | mk objects
  simp only [retain, drop, mk.injEq]
  refine Array.ext (by simp) ?_
  intro i hi hi'
  simp only [Array.getElem_modify]
  split
  · split
    · next hrefs => exact hdead _ hrefs
    · rfl
  · rfl

/-! ## Many objects -/

/-- What has happened when an object was allocated for each string. -/
structure Provides (h : Heap) (strings : List String) (os : List ObjectId) (h' : Heap) : Prop where
  later : Later h h'
  contents : os.map h'.content = strings
  refs : ∀ o, h.Knows o → h'.refs o = h.refs o
  fresh : ∀ o ∈ os, ¬ h.Knows o ∧ h'.refs o = 1
  nodup : os.Nodup

theorem provides_allocAll (h : Heap) (strings : List String) :
    Provides h strings (h.allocAll strings).1 (h.allocAll strings).2 := by
  induction strings generalizing h with
  | nil => exact ⟨.refl h, rfl, fun _ _ => rfl, by simp [allocAll], .nil⟩
  | cons s rest ih =>
    have hrest := ih (h.alloc s).2
    have hself : (h.alloc s).2.Knows (h.alloc s).1 := knows_alloc.2 (.inr rfl)
    rw [allocAll]
    constructor
    · exact (h.later_alloc s).trans hrest.later
    · rw [List.map_cons, hrest.contents, hrest.later.content _ hself, content_alloc_self]
    · intro o ho
      rw [hrest.refs o (knows_alloc.2 (.inl ho)), refs_alloc ho]
    · intro o ho
      rcases List.mem_cons.1 ho with rfl | ho
      · exact ⟨h.not_knows_alloc s, by rw [hrest.refs _ hself, refs_alloc_self]⟩
      · exact ⟨fun hknows => (hrest.fresh o ho).1 (knows_alloc.2 (.inl hknows)),
          (hrest.fresh o ho).2⟩
    · exact List.nodup_cons.2 ⟨fun hmem => (hrest.fresh _ hmem).1 hself, hrest.nodup⟩

end Heap

end WeakIntern
