import SafeRefactor.Proofs.FileWrites
import SafeRefactor.Proofs.IssueContract

/-!
# Commands that fail

The apply command may fail before it writes anything, when it writes the file it was given, and when
it delivers its report. The report comes last: a command that cannot deliver it has written the new
text before, if there was one to write, and does not take it back. A write that the disk refuses
changes nothing. One that breaks off has emptied the file by then, so that what the file holds is
the beginning of the new text, or of the report if that was to go to the same file.
-/

set_option autoImplicit false

namespace SafeRefactor

namespace Store

/-- The disk takes no more than the first `n` bytes of a text for a location. -/
structure CutsOff (s : Store) (d : Disk) (l : Location) (text : String) (n : Nat) : Prop where
  short : ∃ cause, d.fault? s l text = some (.short cause n)
  within : n < text.utf8ByteSize

variable {s : Store} {d : Disk} {l : Location} {text : String}

theorem CutsOff.unique {m n : Nat} (hm : s.CutsOff d l text m) (hn : s.CutsOff d l text n) :
    m = n := by
  obtain ⟨cause, hm⟩ := hm.short
  obtain ⟨cause', hn⟩ := hn.short
  simp only [hm, Option.some.injEq, WriteFault.short.injEq] at hn
  exact hn.2

end Store

namespace Command

section

variable {p : Place} {settings : Settings} {o : ApplyOptions} {d : Disk} {a b : Attempt}
  {l m : Location} {text : String} {f : Failure}

theorem attempt_unique (h : attempt? p settings o = some a) (h' : attempt? p settings o = some b) :
    b = a := by
  rwa [h, Option.some.injEq, eq_comm] at h'

theorem Rewrites.unique {text' : String} (h : Rewrites p settings o l a text)
    (h' : Rewrites p settings o m b text') : m = l ∧ b = a ∧ text' = text := by
  obtain rfl := attempt_unique h.attempted h'.attempted
  have hplace := h'.names
  rw [h.names, Except.ok.injEq] at hplace
  exact ⟨hplace.symm, rfl, Option.some.inj (h'.made.symm.trans h.made)⟩

section

variable {store : Store} {remarks : List Remark}

end

end

section

end

end Command

end SafeRefactor
