import ObjectLang.Proofs.Typing.Twice
set_option autoImplicit false

/-!
# Accepted compilations

A compilation that ends without an error has read all its files, and its program is the one that the
check left behind. So whatever a check without errors establishes holds of it.
-/

namespace ObjectLang.Compilation

def afterReading (files : List SourceFile) : Compilation :=
  ((new.addSources files).recordLexed (files.map lex)).readAll (files.map lex)

theorem ok_of_gate {c d : Compilation} {next : Compilation → Except CompileError Unit × Compilation}
    (h : c.gate next = (.ok (), d)) : c.diagnostics.hasError = false ∧ next c = (.ok (), d) := by
  unfold gate at h
  split at h
  · cases h
  · exact ⟨Bool.eq_false_iff.2 ‹_›, h⟩

theorem compile_eq_of_ok {c : Compilation} {files : List SourceFile}
    (ok : (c.compile files).1 = .ok ()) : c.compile files = (.ok (), (c.compile files).2) :=
  Prod.ext ok rfl

theorem eq_checkAll_of_compile {files : List SourceFile} {c : Compilation}
    (accepted : new.compile files = (.ok (), c)) :
    (afterReading files).checkAll = c ∧ c.diagnostics.hasError = false := by
  unfold compile at accepted
  obtain ⟨-, read⟩ := ok_of_gate accepted
  obtain ⟨-, checked⟩ := ok_of_gate read
  obtain ⟨clean, same⟩ := ok_of_gate checked
  have same : (afterReading files).checkAll = c := congrArg Prod.snd same
  exact ⟨same, same ▸ clean⟩

theorem written_sources {c : Compilation} (h : Written c.modules c.program)
    (files : List SourceFile) : Written ((c.addSources files).recordLexed (files.map lex)).modules
      ((c.addSources files).recordLexed (files.map lex)).program := h

theorem written_afterReading (files : List SourceFile) :
    Written (afterReading files).modules (afterReading files).program :=
  written_readAll (written_sources written_new files) _

theorem modules_sources (c : Compilation) (files : List SourceFile) :
    ((c.addSources files).recordLexed (files.map lex)).modules = c.modules := rfl

theorem modules_read_ne_nil (c : Compilation) (name : String) (tokens : Lexed) :
    (c.read name tokens).modules ≠ [] :=
  List.append_ne_nil_of_right_ne_nil _ (List.cons_ne_nil _ _)

theorem modules_new_ne_nil : new.modules ≠ [] := by
  rw [new, withBuiltins]
  exact modules_read_ne_nil _ _ _

/-- What holds of the builtin module and is kept by every file holds of all that is read. -/
theorem afterReading_induct {I : List Module → Program → Prop}
    (file : ∀ {earlier : List Module} {p : Program} {name path : String} {d : Draft},
      Library earlier p → earlier ≠ [] → I earlier p →
        Draft.Steps earlier (.start earlier name path p) d → I (earlier ++ [d.module]) d.program)
    (start : I new.modules new.program) (files : List SourceFile) :
    I (afterReading files).modules (afterReading files).program := by
  have sources (c : Compilation) (h : I c.modules c.program) :
      I ((c.addSources files).recordLexed (files.map lex)).modules
        ((c.addSources files).recordLexed (files.map lex)).program := h
  exact readAll_induct file (written_sources written_new files)
    (modules_sources new files ▸ modules_new_ne_nil) (sources new start) _

/-- The state that the check of an accepted compilation ends in. -/
structure Compiled (files : List SourceFile) (c : Compilation) (t : Typing.State) : Prop where
  accepted : (afterReading files).Accepted t
  program : c.program = t.program
  modules : c.modules = (afterReading files).modules

theorem compiled {files : List SourceFile} {c : Compilation}
    (accepted : new.compile files = (.ok (), c)) :
    Compiled files c ((afterReading files).checkFrom 1 (afterReading files).unchecked) := by
  obtain ⟨rfl, clean⟩ := eq_checkAll_of_compile accepted
  exact ⟨accepted_checkFrom (written_afterReading files).library clean, rfl, rfl⟩

end ObjectLang.Compilation
