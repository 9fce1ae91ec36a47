import CallSchema.Proofs.Outline.Lines

set_option autoImplicit false

namespace CallSchema.Outline

structure IsProse (t : Text) : Prop where
  tidy : Text.tidy t = t
  lines : ∀ line ∈ Text.lines t, head? line = none

theorem isProse_tidy {t : Text} (h : ∀ line ∈ Text.lines t, head? line = none) :
    IsProse (Text.tidy t) := by
  refine ⟨Text.tidy_tidy t, ?_⟩
  intro line mem
  rw [Text.lines_tidy] at mem
  obtain ⟨⟨k, known, rfl⟩, -⟩ := Text.mem_tidyLines.mp mem
  rw [head?_trim, h k known]

theorem isProse_tidy_prose (t : Text) : IsProse (Text.tidy (Text.joinLines (scan t).prose)) := by
  refine ⟨Text.tidy_tidy _, ?_⟩
  intro line mem
  rw [tidy_prose, Text.lines_joinLines_tidyLines fun l => newline_not_mem_of_mem_prose] at mem
  obtain ⟨⟨k, known, rfl⟩, -⟩ := Text.mem_tidyLines.mp mem
  rw [head?_trim, (head?_of_mem_prose known).2]

theorem isProse_read (t : Text) : IsProse (read t).prose := by
  rw [read_eq]
  split
  · next none => exact isProse_tidy (head?_of_no_definitions none)
  · exact isProse_tidy_prose t

theorem IsProse.read_eq {t : Text} (h : IsProse t) : read t = ⟨t, none⟩ := by
  rw [read_of_no_definitions h.lines, h.tidy]

theorem read_prose (t : Text) : read (read t).prose = ⟨(read t).prose, none⟩ :=
  (isProse_read t).read_eq

end CallSchema.Outline
