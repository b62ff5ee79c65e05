import Mailroom.Proofs.Remote.Call
import Mailroom.Session.Basic

/-! Runs of a session's operations: what its parts do to it, and what is read of a loaded label. -/

namespace Mailroom.Session

variable {σ α : Type} {s : Session σ}

@[simp] theorem run_onOutside (x : Call σ α) (s : Session σ) :
    (onOutside x).run s = ((x.run s.outside).1, { s with outside := (x.run s.outside).2 }) := rfl

@[simp] theorem run_modifyDirectory (f : Label.Directory → Label.Directory) (s : Session σ) :
    (modifyDirectory f).run s = (.ok ⟨⟩, { s with directory := f s.directory }) := rfl

theorem entityId_of_entity? {e : Label.EntityRef} {x : Label.Entity} (h : s.entity? e = some x) :
    s.entityId e = x.id := by
  rw [entityId, h]
  rfl

theorem entityKind_of_entity? {e : Label.EntityRef} {x : Label.Entity} (h : s.entity? e = some x) :
    s.entityKind e = x.kind := by
  rw [entityKind, h]
  rfl

theorem entityName_of_entity? {e : Label.EntityRef} {x : Label.Entity} (h : s.entity? e = some x) :
    s.entityName e = x.name := by
  rw [entityName, h]
  rfl

end Mailroom.Session
