import Offside.Proofs.NameResolution

/-!
# What holds of every declared name

A property that the identifiers in a symbol table share, whether they are hidden or not, is one of the names
that are looked up in it. Frames come and go without losing it; a declaration needs it of one more name.
-/

namespace Offside

set_option autoImplicit false

theorem Identifier.location?_toNode (i : Identifier) : i.toNode.location? = some i.location := by
  cases i <;> rfl

theorem Identifier.value?_toNode (i : Identifier) : i.toNode.value? = .ok none := by
  cases i <;> rfl

namespace SymbolTable

def Every (P : Identifier → Prop) (symbols : SymbolTable) : Prop :=
  ∀ frame ∈ symbols.frames, ∀ i ∈ frame, P i

variable {P : Identifier → Prop} {symbols symbols' : SymbolTable} {frame : Frame} {i : Identifier}

theorem every_empty : empty.Every P := List.forall_mem_nil _

theorem Every.reopen (h : symbols.Every P) (hframe : ∀ i ∈ frame, P i) :
    (symbols.reopen frame).Every P :=
  List.forall_mem_cons.mpr ⟨hframe, h⟩

theorem Every.openFrame (h : symbols.Every P) : symbols.openFrame.Every P :=
  h.reopen (List.forall_mem_nil _)

theorem Every.close (h : symbols.Every P) :
    (∀ i ∈ symbols.close.1.getD [], P i) ∧ symbols.close.2.Every P := by
  obtain ⟨frames⟩ := symbols
  cases frames with
  | nil => exact ⟨List.forall_mem_nil _, List.forall_mem_nil _⟩
  | cons frame outer => exact List.forall_mem_cons.mp h

theorem Every.declare? (h : symbols.Every P) (hi : P i) (hd : symbols.declare? i = some symbols') :
    symbols'.Every P := by
  obtain ⟨frames⟩ := symbols
  cases frames with
  | nil => cases hd
  | cons frame outer =>
    obtain ⟨hframe, houter⟩ := List.forall_mem_cons.mp h
    obtain ⟨-, rfl⟩ := declare?_eq_some hd
    refine List.forall_mem_cons.mpr ⟨List.forall_mem_append.mpr ⟨hframe, ?_⟩, houter⟩
    exact List.forall_mem_singleton.mpr hi

theorem Every.lookup? (h : symbols.Every P) {name : String} (hl : symbols.lookup? name = some i) :
    i.name = name ∧ P i := by
  obtain ⟨frame, hframe, hfound⟩ := List.exists_of_findSome?_eq_some hl
  refine ⟨?_, h frame hframe i (List.mem_of_find?_eq_some hfound)⟩
  simpa using List.find?_some hfound

end SymbolTable

end Offside
