import Mathlib.Data.Nat.Notation
import Mathlib.Logic.Function.Basic

/-! A buffer for one block of a medium. A block that was changed in it is written back before another one
takes its place. -/

namespace Library.WriteBack

variable {α β : Type*}

structure Cache (α β : Type*) where
  medium : α → β
  tag : α
  block : β
  dirty : Bool

namespace Cache

/-- Another block comes into a buffer that was written back. -/
def load (c : Cache α β) (a : α) : Cache α β := ⟨c.medium, a, c.medium a, false⟩

/-- The block in the buffer is changed. -/
def store (c : Cache α β) (block : β) : Cache α β := { c with block, dirty := true }

/-- A buffer over the addresses in `P`: a block that was not changed is as it is on the medium. -/
structure Sound (P : α → Prop) (c : Cache α β) : Prop where
  clean : P c.tag → c.dirty = false → c.block = c.medium c.tag
  dirty : c.dirty = true → P c.tag

variable {P : α → Prop} {c : Cache α β} {a b : α} {block : β}

theorem Sound.load (a : α) : (c.load a).Sound P := ⟨fun _ _ => rfl, fun h => Bool.noConfusion h⟩

theorem Sound.store (htag : P c.tag) : (c.store block).Sound P :=
  ⟨fun _ h => Bool.noConfusion h, fun _ => htag⟩

variable [DecidableEq α]

/-- The blocks as the user of the buffer sees them. -/
def view (c : Cache α β) : α → β := Function.update c.medium c.tag c.block

def writeBack (c : Cache α β) : Cache α β := ⟨c.view, c.tag, c.block, false⟩

/-- A block is written past the buffer. -/
def direct (c : Cache α β) (a : α) (block : β) : Cache α β :=
  { c with medium := Function.update c.medium a block }

theorem view_tag : c.view c.tag = c.block := Function.update_self ..

theorem view_of_ne (h : a ≠ c.tag) : c.view a = c.medium a := Function.update_of_ne h ..

theorem Sound.view_clean (h : c.Sound P) (hdirty : c.dirty = false) (ha : P a) : c.view a = c.medium a := by
  by_cases htag : a = c.tag
  · subst htag
    rw [view_tag, h.clean ha hdirty]
  · exact view_of_ne htag

theorem view_writeBack : c.writeBack.view = c.view := Function.update_idem ..

theorem Sound.writeBack : c.writeBack.Sound P :=
  ⟨fun _ _ => (view_tag (c := c)).symm, fun h => Bool.noConfusion h⟩

theorem view_load (h : c.Sound P) (hdirty : c.dirty = false) (hb : P b) : (c.load a).view b = c.view b := by
  rw [h.view_clean hdirty hb]
  exact (Sound.load (P := P) a).view_clean rfl hb

theorem view_store : (c.store block).view = Function.update c.view c.tag block :=
  (Function.update_idem ..).symm

/-- A block that is not in the buffer may be written past it. -/
theorem view_direct (h : a ≠ c.tag) : (c.direct a block).view = Function.update c.view a block :=
  Function.update_comm h _ _ _

theorem Sound.direct (h : c.Sound P) (hne : a ≠ c.tag) : (c.direct a block).Sound P where
  clean htag hdirty := (h.clean htag hdirty).trans (Function.update_of_ne hne.symm ..).symm
  dirty := h.dirty

end Cache

end Library.WriteBack
