import Mathlib.Data.List.GetD
import PreferenceLogic.Object
import PreferenceLogic.Proofs.Vocabulary

/-!
# Objects as valuations

An object chooses a value for every attribute, so it is a valuation of the atoms of its vocabulary.
Its labels and its literals are two ways to write the valuation down.

Definitions:
* `Object.valuation`: the valuation that an object chooses.

Results:
* `Vocabulary.ids_objects`: the objects are numbered from zero, without gaps.
* `Vocabulary.pairwise_ids_of_sublist`: what is left of the objects is still numbered in order.
* `Vocabulary.literals_of_mem`: the literals of an object are those that hold.
* `Vocabulary.mem_literals_iff`: a literal is among them if it holds and its atom is an attribute.
* `Vocabulary.getElem?_labels_of_mem`: the labels of an object, attribute by attribute.
* `Vocabulary.label_mem_iff`: the labels of an object are those of the literals that hold.
-/

namespace PreferenceLogic

/-- The valuation that an object chooses. Atoms beyond the attributes are false. -/
def Object.valuation (o : Object) : Valuation := fun atom => o.bits.getD atom false

theorem Valuation.map_atom_literals (v : Valuation) (atoms : Nat) :
    (v.literals atoms).map Literal.atom = List.range atoms := by
  rw [literals, List.map_map]
  exact List.map_id _

@[simp] theorem length_bitsOf (width n : Nat) : (bitsOf width n).length = width := by
  simp [bitsOf]

namespace Vocabulary

variable {v : Vocabulary} {object : Object} {label : Text}

/-! ## Numbers -/

@[simp] theorem id_object (id : Nat) : (v.object id).id = id := rfl

@[simp] theorem length_bits (id : Nat) : (v.object id).bits.length = v.size :=
  length_bitsOf v.size id

theorem ids_objects : v.objects.map Object.id = List.range (Nat.pow 2 v.size) := by
  rw [objects, List.map_map]
  exact List.map_id _

/-- Some of the objects in their order are numbered in increasing order. -/
theorem pairwise_ids_of_sublist {objects : List Object} (h : objects.Sublist v.objects) :
    (objects.map Object.id).Pairwise (· < ·) := by
  have hsub : (objects.map Object.id).Sublist (v.objects.map Object.id) := h.map Object.id
  rw [ids_objects] at hsub
  exact List.pairwise_lt_range.sublist hsub

theorem mem_objects_iff :
    object ∈ v.objects ↔ object.id < Nat.pow 2 v.size ∧ object = v.object object.id := by
  rw [objects, List.mem_map]
  constructor
  · rintro ⟨id, hid, rfl⟩
    exact ⟨List.mem_range.mp hid, rfl⟩
  · rintro ⟨hid, heq⟩
    exact ⟨object.id, List.mem_range.mpr hid, heq.symm⟩

theorem getElem?_objects_iff {id : Nat} :
    v.objects[id]? = some object ↔ object ∈ v.objects ∧ object.id = id := by
  rw [mem_objects_iff, objects, List.getElem?_map, Option.map_eq_some_iff]
  constructor
  · rintro ⟨n, hn, rfl⟩
    obtain ⟨hid, rfl⟩ := List.getElem?_eq_some_iff.mp hn
    simp only [List.length_range] at hid
    simp only [List.getElem_range, id_object, and_true]
    exact hid
  · rintro ⟨⟨hid, heq⟩, rfl⟩
    exact ⟨object.id, List.getElem?_range hid, heq.symm⟩

/-- The object with a number that is in use is found at that index. -/
theorem getElem!_objects {id : Nat} (h : id < Nat.pow 2 v.size) : v.objects[id]! = v.object id :=
  List.getElem!_of_getElem? (getElem?_objects_iff.mpr ⟨mem_objects_iff.mpr ⟨h, rfl⟩, rfl⟩)

theorem getElem!_objects_id (h : object ∈ v.objects) : v.objects[object.id]! = object :=
  List.getElem!_of_getElem? (getElem?_objects_iff.mpr ⟨h, rfl⟩)

/-- The number tells the object. -/
theorem eq_of_id_eq {x y : Object} (hx : x ∈ v.objects) (hy : y ∈ v.objects) (h : x.id = y.id) :
    x = y := by
  rw [(mem_objects_iff.mp hx).2, (mem_objects_iff.mp hy).2, h]

theorem id_mem_map_iff {objects : List Object} (hsubset : objects ⊆ v.objects)
    (h : object ∈ v.objects) : object.id ∈ objects.map Object.id ↔ object ∈ objects := by
  refine ⟨fun hid => ?_, List.mem_map_of_mem⟩
  obtain ⟨other, hother, heq⟩ := List.mem_map.mp hid
  rwa [← eq_of_id_eq (hsubset hother) h heq]

/-! ## Literals and labels -/

theorem literals_object (id : Nat) :
    (v.object id).literals = (v.object id).valuation.literals v.size := by
  apply List.ext_getElem
  · simp [object, Valuation.literals]
  · intro i h1 h2
    have hi : i < (v.object id).bits.length := by simpa using h2
    simp only [object, Valuation.literals, Object.valuation, List.getElem_zipWith,
      List.getElem_map, List.getElem_range, Literal.mk.injEq, true_and]
    exact (List.getD_eq_getElem _ _ hi).symm

theorem literals_of_mem (h : object ∈ v.objects) :
    object.literals = object.valuation.literals v.size := by
  rw [(mem_objects_iff.mp h).2]
  exact literals_object object.id

/-- The literals of an object are those of its attributes that hold. -/
theorem mem_literals_iff (h : object ∈ v.objects) {l : Literal} :
    l ∈ object.literals ↔ l.atom < v.size ∧ l.eval object.valuation = true := by
  rw [literals_of_mem h, Valuation.literals, List.mem_map]
  constructor
  · rintro ⟨atom, hatom, rfl⟩
    exact ⟨List.mem_range.mp hatom, by simp [Literal.eval]⟩
  · rintro ⟨hatom, heval⟩
    have hvalue : object.valuation l.atom = l.positive := by simpa [Literal.eval] using heval
    exact ⟨l.atom, List.mem_range.mpr hatom, by rw [hvalue]⟩

theorem getElem?_labels (id i : Nat) :
    (v.object id).labels[i]? =
      (v.attribute? i).map fun a => a.label ((v.object id).valuation i) := by
  show (List.zipWith Attribute.label v.attributes (v.object id).bits)[i]? = _
  rw [List.getElem?_zipWith, attribute?]
  cases ha : v.attributes[i]? with
  | none => rfl
  | some a =>
    have hi : i < (v.object id).bits.length := by
      rw [length_bits]
      exact (List.getElem?_eq_some_iff.mp ha).1
    rw [List.getElem?_eq_getElem hi, Object.valuation, List.getD_eq_getElem _ _ hi]
    rfl

theorem getElem?_labels_of_mem (h : object ∈ v.objects) (i : Nat) :
    object.labels[i]? = (v.attribute? i).map fun a => a.label (object.valuation i) := by
  rw [(mem_objects_iff.mp h).2]
  exact getElem?_labels object.id i

theorem label_mem_iff (h : object ∈ v.objects) :
    label ∈ object.labels ↔
      ∃ l, v.label? l = some label ∧ l.eval object.valuation = true := by
  simp only [List.mem_iff_getElem?, getElem?_labels_of_mem h, label?]
  constructor
  · intro h
    obtain ⟨i, hi⟩ := h
    exact ⟨⟨i, object.valuation i⟩, hi, by simp [Literal.eval]⟩
  · intro h
    obtain ⟨l, hl, heval⟩ := h
    have hvalue : object.valuation l.atom = l.positive := by simpa [Literal.eval] using heval
    exact ⟨l.atom, by rw [hvalue]; exact hl⟩

/-- A label is chosen exactly when it stands at the position of its attribute. -/
theorem label_mem_iff_getElem? (h : object ∈ v.objects) {l : Literal}
    (hl : v.label? l = some label) :
    label ∈ object.labels ↔ object.labels[l.atom]? = some label := by
  constructor
  · intro hmem
    obtain ⟨m, hm, heval⟩ := (label_mem_iff h).mp hmem
    have hvalue : object.valuation l.atom = l.positive := by
      rw [label?_inj hl hm]
      simpa [Literal.eval] using heval
    rw [getElem?_labels_of_mem h, hvalue]
    exact hl
  · exact List.mem_of_getElem?

/-- The label that a word resolves to tells whether the literal holds. -/
theorem mem_labels_of_resolve {l : Literal} (h : object ∈ v.objects)
    (hl : v.resolve label = .ok l) : label ∈ object.labels ↔ l.eval object.valuation = true := by
  rw [resolve_eq_ok_iff] at hl
  rw [label_mem_iff h]
  constructor
  · rintro ⟨m, hm, heval⟩
    rwa [label?_inj hl hm]
  · intro heval
    exact ⟨l, hl, heval⟩

end Vocabulary

end PreferenceLogic
