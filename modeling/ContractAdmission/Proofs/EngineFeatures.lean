import ContractAdmission.Proofs.Truncation
import ContractAdmission.Proofs.Wasm.WiderSections

/-!
# More features

Features of an engine only admit more binaries.  A binary that has an interface under some
features has the same one under more of them, and so the same verdict with the same records;
and what is refused under more features is refused under fewer.

* `Module.decode_of_within` — what a binary declares does not change with more features.
* `compile_eq_of_within` — nor does what it compiles to, unless it is malformed with fewer.
* `features_conservative` — hence neither does the verdict on it.
-/

namespace ContractAdmission
namespace Wasm

section

variable {engine wider : Engine} (h : engine.Within wider)

include h

namespace Module

/-- One more section does what it does with fewer features. -/
theorem addSection_of_within {module next : Module} {part : Section}
    (hadded : module.addSection engine part = some next) :
    module.addSection wider part = some next := by
  rcases addSection_eq_some_iff.1 hadded with hcustom | ⟨hid, hplace, read, hread, hnext⟩
  · exact addSection_eq_some_iff.2 (Or.inl hcustom)
  · have hkept := (sectionContents_keeps h module part.id).exactly hread
    exact addSection_eq_some_iff.2 (Or.inr ⟨hid, hplace, read, hkept, hnext⟩)

/-- So do several sections, one after the other. -/
theorem run_of_within {parts : List Section} {module last : Module}
    (hrun : parts.foldlM (addSection engine) module = some last) :
    parts.foldlM (addSection wider) module = some last := by
  induction parts generalizing module with
  | nil => exact hrun
  | cons part rest ih =>
      rw [List.foldlM_cons, Option.bind_eq_bind, Option.bind_eq_some_iff] at hrun ⊢
      obtain ⟨next, hnext, hrest⟩ := hrun
      exact ⟨next, addSection_of_within h hnext, ih hrest⟩

/-- A binary declares what it declares with fewer features. -/
theorem decode_of_within {bytes : Bytes} {module : Module}
    (hdecode : decode engine bytes = some module) : decode wider bytes = some module := by
  obtain ⟨body, parts, hbytes, hitems, hrun, hcomplete⟩ := decode_eq_some_iff.1 hdecode
  exact decode_eq_some_iff.2 ⟨body, parts, hbytes, hitems, run_of_within h hrun, hcomplete⟩

end Module

/-- Only what is malformed with fewer features can be anything else with more. -/
theorem compile_eq_of_within (bytes : Bytes) :
    compile engine bytes = .error .malformed ∨ compile wider bytes = compile engine bytes := by
  by_cases hmagic : magic.isPrefixOf bytes = true
  · rw [compile, compile, if_pos hmagic, if_pos hmagic]
    cases hdecode : Module.decode engine bytes with
    | none => exact Or.inl rfl
    | some module =>
        rw [Module.decode_of_within h hdecode]
        exact Or.inr rfl
  · rw [compile, compile, if_neg hmagic, if_neg hmagic]
    exact Or.inr rfl

end
end Wasm

/-- **More features are conservative.**

Take two engines, one of which has all the features of the other.  If bytes have an interface
with the fewer features, then they have the same interface with the more, and under every
request the same verdict, or the same error, with the same records.  If they are refused with
the more features, then they are refused with the fewer, for the same cause or as malformed. -/
theorem features_conservative {engine wider : Wasm.Engine} (h : engine.Within wider)
    (bytes : Bytes) :
    (∀ iface, Wasm.compile engine bytes = .ok iface →
      Wasm.compile wider bytes = .ok iface ∧
        ∀ request, validate bytes request wider = validate bytes request engine) ∧
    (∀ error, Wasm.compile wider bytes = .error error →
      ∃ cause, Wasm.compile engine bytes = .error cause ∧
        (cause = error ∨ cause = .malformed)) := by
  have hcompile := Wasm.compile_eq_of_within h bytes
  constructor
  · intro iface hiface
    have hsame : Wasm.compile wider bytes = Wasm.compile engine bytes := by
      refine hcompile.resolve_left fun hmalformed => ?_
      cases hiface.symm.trans hmalformed
    refine ⟨hsame.trans hiface, fun request => ?_⟩
    rw [validate, validate, hsame]
  · intro error herror
    rcases hcompile with hmalformed | hsame
    · exact ⟨.malformed, hmalformed, Or.inr rfl⟩
    · exact ⟨error, hsame.symm.trans herror, Or.inl rfl⟩

/-- A binary that exports a memory and has a function that reads from it. -/
def loadingBinary : Bytes :=
  Wasm.header ++
    [0x01, 0x04, 0x01, 0x60, 0x00, 0x00, 0x03, 0x02, 0x01, 0x00, 0x05, 0x03, 0x01, 0x00, 0x01,
      0x07, 0x05, 0x01, 0x01, 0x6d, 0x02, 0x00,
      0x0a, 0x0a, 0x01, 0x08, 0x00, 0x41, 0x00, 0x28, 0x02, 0x00, 0x1a, 0x0b]

/-- The binary compiles to the same interface with no feature and with all of them; without
its last byte it is refused with all of them, and so with none. -/
theorem features_conservative_loading :
    let engine : Wasm.Engine := ⟨false, false, false⟩
    let wider : Wasm.Engine := ⟨true, true, true⟩
    engine.Within wider ∧
      Wasm.compile engine loadingBinary = .ok ⟨[⟨"m", "memory"⟩], []⟩ ∧
      Wasm.compile wider loadingBinary = .ok ⟨[⟨"m", "memory"⟩], []⟩ ∧
      (validate loadingBinary {} wider).value = (validate loadingBinary {} engine).value ∧
      ∃ cause, Wasm.compile engine loadingBinary.dropLast = .error cause := by
  intro engine wider
  have hwithin : engine.Within wider := ⟨fun _ => rfl, fun _ => rfl, fun _ => rfl⟩
  have hiface : Wasm.compile engine loadingBinary = .ok ⟨[⟨"m", "memory"⟩], []⟩ := by
    decide +kernel
  have hrefused : Wasm.compile wider loadingBinary.dropLast = .error .malformed := by
    decide +kernel
  obtain ⟨hkept, hverdict⟩ := (features_conservative hwithin loadingBinary).1 _ hiface
  obtain ⟨cause, hcause, -⟩ := (features_conservative hwithin loadingBinary.dropLast).2 _ hrefused
  exact ⟨hwithin, hiface, hkept, by rw [hverdict], cause, hcause⟩

end ContractAdmission
