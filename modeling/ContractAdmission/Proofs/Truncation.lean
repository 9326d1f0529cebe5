import ContractAdmission.Proofs.BinaryInterface
import ContractAdmission.Proofs.Checks
import ContractAdmission.Proofs.Wasm.Growth

/-!
# Truncated binaries

Cutting a binary short can leave another binary, but only at the end of a section, and
then with all of the imports or none, and with all of the exports or none.  A contract
needs some of either, so a binary that is accepted after a cut was accepted before it.

* `Wasm.AtBoundary` — a cut at the end of the header or of a section.
* `Wasm.Module.decode_eq_some_iff` — what it takes for a binary to be accepted.
* `truncation_keeps_interface` — what a cut leaves of an interface, and that it makes no
  contract valid.
-/

namespace ContractAdmission
namespace Wasm

/-- The first bytes of a binary end where its header or one of its sections does. -/
def AtBoundary (cut bytes : Bytes) : Prop :=
  ∃ before after front back, Section.split bytes = some (before ++ after) ∧
    Items SectionForm before front ∧ Items SectionForm after back ∧
      cut = header ++ front ∧ bytes = header ++ front ++ back

/-- Sections make a module when they can be added one after the other and nothing is
missing at the end. -/
theorem Module.ofSections_eq_some_iff {engine : Engine} {parts : List Section}
    {module : Module} :
    ofSections engine parts = some module ↔
      parts.foldlM (addSection engine) {} = some module ∧ module.complete = true := by
  unfold ofSections
  cases hfold : parts.foldlM (addSection engine) {} with
  | none => simp
  | some found =>
      by_cases hcomplete : found.complete = true
      · simp only [Option.bind_eq_bind, Option.bind_some, if_pos hcomplete, Option.some.injEq]
        constructor
        · rintro rfl
          exact ⟨rfl, hcomplete⟩
        · exact And.left
      · simp only [Option.bind_eq_bind, Option.bind_some, if_neg hcomplete, reduceCtorEq,
          Option.some.injEq, false_iff, not_and]
        rintro rfl
        exact hcomplete

/-- A binary is accepted when the bytes after its header consist of sections that make a
module in which nothing is missing. -/
theorem Module.decode_eq_some_iff {engine : Engine} {bytes : Bytes} {module : Module} :
    decode engine bytes = some module ↔
      ∃ body parts, bytes = header ++ body ∧ Items SectionForm parts body ∧
        parts.foldlM (addSection engine) {} = some module ∧ module.complete = true := by
  unfold decode
  rw [Option.bind_eq_bind, Option.bind_eq_some_iff]
  constructor
  · rintro ⟨parts, hsplit, hparts⟩
    obtain ⟨body, hbytes, hitems⟩ := Section.split_eq_some_iff.1 hsplit
    exact ⟨body, parts, hbytes, hitems, ofSections_eq_some_iff.1 hparts⟩
  · rintro ⟨body, parts, hbytes, hitems, hparts⟩
    exact ⟨parts, Section.split_eq_some_iff.2 ⟨body, hbytes, hitems⟩,
      ofSections_eq_some_iff.2 hparts⟩

/-- A binary that has an interface is accepted, and the interface is that of its module. -/
theorem exists_module_of_compile {engine : Engine} {bytes : Bytes} {iface : Interface}
    (h : compile engine bytes = .ok iface) :
    ∃ module, Module.decode engine bytes = some module ∧ module.interface? = some iface := by
  unfold compile at h
  split at h
  · split at h
    · cases h
    · rename_i module hdecode
      split at h
      · cases h
      · rename_i found hfound
        cases h
        exact ⟨module, hdecode, hfound⟩
  · cases h

theorem Module.lists_of_interface? {module : Module} {iface : Interface}
    (h : module.interface? = some iface) :
    module.exports.mapM (·.listed?) = some iface.exports ∧
      module.imports.mapM (·.listed?) = some iface.imports := by
  unfold interface? at h
  obtain ⟨exports, hexports, h⟩ := Option.bind_eq_some_iff.1 h
  obtain ⟨imports, himports, h⟩ := Option.bind_eq_some_iff.1 h
  cases h
  exact ⟨hexports, himports⟩

theorem eq_nil_or_eq_of_mapM {α β : Type} {f : α → Option β} {first second : List α}
    {firsts seconds : List β} (h : first = [] ∨ first = second)
    (hfirst : first.mapM f = some firsts) (hsecond : second.mapM f = some seconds) :
    firsts = [] ∨ firsts = seconds := by
  rcases h with rfl | rfl
  · cases hfirst
    exact Or.inl rfl
  · rw [hfirst] at hsecond
    exact Or.inr (Option.some.inj hsecond)

/-- What is accepted of a binary after a cut ends at a boundary, and has the imports and
the exports of the whole or none. -/
theorem Module.lists_of_prefix {engine : Engine} {cut bytes : Bytes} {first all : Module}
    (hbegins : cut <+: bytes) (hcut : decode engine cut = some first)
    (hall : decode engine bytes = some all) :
    AtBoundary cut bytes ∧ (first.imports = [] ∨ first.imports = all.imports) ∧
      (first.exports = [] ∨ first.exports = all.exports) := by
  obtain ⟨front, before, rfl, hfront, hbefore, -⟩ := decode_eq_some_iff.1 hcut
  obtain ⟨body, parts, rfl, hbody, hparts, -⟩ := decode_eq_some_iff.1 hall
  obtain ⟨back, rfl⟩ := (List.prefix_append_right_inj header).1 hbegins
  -- The sections of the front part are the first ones of the whole.
  obtain ⟨after, rfl, hback⟩ := hfront.exists_append_of_prefix hbody
  rw [List.foldlM_append, hbefore] at hparts
  refine ⟨⟨before, after, front, back, ?_, hfront, hback, rfl, by rw [List.append_assoc]⟩, ?_, ?_⟩
  · exact Section.split_eq_some_iff.2 ⟨front ++ back, rfl, hbody⟩
  · exact imports_belongTo.eq_or_eq_of_run (by decide) hbefore hparts
  · exact exports_belongTo.eq_or_eq_of_run (by decide) hbefore hparts

end Wasm

theorem Host.mem_known_of_resolve {version : String} {host : Host}
    (h : Host.resolve version = .ok host) : host ∈ Host.known := by
  unfold Host.resolve at h
  split at h
  · rename_i found hfound
    cases h
    exact List.mem_of_find?_eq_some hfound
  · cases h

/-- Every known host insists on some import. -/
theorem Host.requiredImports_ne_nil {version : String} {host : Host}
    (h : Host.resolve version = .ok host) : host.requiredImports ≠ [] := by
  have hknown : ∀ known ∈ Host.known, known.requiredImports ≠ [] := by decide
  exact hknown host (Host.mem_known_of_resolve h)

theorem Request.resolve_of_terms {request : Request} {terms : Terms}
    (h : request.terms = .ok terms) : Host.resolve request.hostVersion = .ok terms.host := by
  unfold Request.terms at h
  cases hhost : Host.resolve request.hostVersion with
  | error error =>
      rw [hhost] at h
      cases h
  | ok host =>
      rw [hhost] at h
      cases hpolicy : Policy.resolve request.policyName with
      | error error =>
          rw [hpolicy] at h
          cases h
      | ok policy =>
          rw [hpolicy] at h
          cases h
          rfl

/-- An interface without exports, or without imports, is valid under no request. -/
theorem lists_ne_nil_of_valid {iface : Interface} {request : Request}
    (h : (assess iface request).value = .ok .valid) :
    iface.exports ≠ [] ∧ iface.imports ≠ [] := by
  unfold assess at h
  split at h
  · cases h
  · rename_i terms hterms
    have hvalid : (judge iface terms).value = .valid := Except.ok.inj h
    have hchecks := judge_valid_iff.1 hvalid
    constructor
    · intro hnone
      have hmemory := Check.memories_eq_none_iff.1 (hchecks .memories)
      simp [Interface.exportsOfKind, hnone] at hmemory
    · intro hnone
      have hrequired := Host.requiredImports_ne_nil (Request.resolve_of_terms hterms)
      obtain ⟨name, hname⟩ := List.exists_mem_of_ne_nil _ hrequired
      have himport := Check.imports_eq_none_iff.1 (hchecks .imports) name hname
      simp [Interface.qualifiedNames, hnone] at himport

/-- The verdict `valid` on bytes is that on their interface. -/
theorem validate_valid_iff {bytes : Bytes} {iface : Interface} {engine : Wasm.Engine}
    (h : Wasm.compile engine bytes = .ok iface) (request : Request) :
    (validate bytes request engine).value = .ok .valid ↔
      (assess iface request).value = .ok .valid := by
  rw [validate_of_compile h]
  cases (assess iface request).value with
  | error error => simp [Except.mapError]
  | ok verdict => simp [Except.mapError]

/-- **Truncation never yields a partial interface.**  Where a binary and its first bytes
both have an interface, the cut falls on the end of the header or of a section of the
binary; the imports after the cut are none or those of the whole binary, and so are the
exports.  Hence a binary that is valid after a cut, under any request, was valid before
it with the same interface. -/
theorem truncation_keeps_interface {engine : Wasm.Engine} {cut bytes : Bytes}
    {partly whole : Interface} (hbegins : cut <+: bytes)
    (hcut : Wasm.compile engine cut = .ok partly)
    (hwhole : Wasm.compile engine bytes = .ok whole) :
    Wasm.AtBoundary cut bytes ∧
      (partly.imports = [] ∨ partly.imports = whole.imports) ∧
      (partly.exports = [] ∨ partly.exports = whole.exports) ∧
      ∀ request, (validate cut request engine).value = .ok .valid →
        partly = whole ∧ (validate bytes request engine).value = .ok .valid := by
  obtain ⟨first, hfirst, hpartly⟩ := Wasm.exists_module_of_compile hcut
  obtain ⟨all, hall, hwhole'⟩ := Wasm.exists_module_of_compile hwhole
  obtain ⟨hboundary, himports, hexports⟩ := Wasm.Module.lists_of_prefix hbegins hfirst hall
  obtain ⟨hexported, himported⟩ := Wasm.Module.lists_of_interface? hpartly
  obtain ⟨hexported', himported'⟩ := Wasm.Module.lists_of_interface? hwhole'
  have himports' := Wasm.eq_nil_or_eq_of_mapM himports himported himported'
  have hexports' := Wasm.eq_nil_or_eq_of_mapM hexports hexported hexported'
  refine ⟨hboundary, himports', hexports', ?_⟩
  intro request hvalid
  -- A contract has exports and imports, so neither list was cut off.
  have hassess := (validate_valid_iff hcut request).1 hvalid
  obtain ⟨hsomeExports, hsomeImports⟩ := lists_ne_nil_of_valid hassess
  have hsame : partly = whole := by
    obtain ⟨exports, imports⟩ := partly
    obtain ⟨exports', imports'⟩ := whole
    obtain rfl : exports = exports' := hexports'.resolve_left hsomeExports
    obtain rfl : imports = imports' := himports'.resolve_left hsomeImports
    rfl
  subst hsame
  exact ⟨rfl, (validate_valid_iff hwhole request).2 hassess⟩

/-- The bytes of an ASCII text. -/
def asciiBytes (text : String) : Bytes := text.toList.map fun char => UInt8.ofNat char.toNat

namespace Wasm

/-- A number below `2 ^ 14` in two bytes. -/
def twoBytes (n : Nat) : Bytes := [UInt8.ofNat (n % 128 + 128), UInt8.ofNat (n / 128)]

/-- The bytes of a section with fewer than `2 ^ 14` bytes of items. -/
def sectionOf (code : UInt8) (items : List Bytes) : Bytes :=
  let contents := twoBytes items.length ++ items.flatten
  code :: twoBytes contents.length ++ contents

/-- The bytes of a name of fewer than 128 ASCII characters. -/
def asciiName (name : String) : Bytes := UInt8.ofNat name.length :: asciiBytes name

end Wasm

namespace Host

/-- The names of the functions of the environment that a host insists on. -/
def importNames (host : Host) : List String :=
  host.requiredImports.map fun name => String.ofList (name.toList.drop 4)

/-- The functions that the least contract of a host exports, with some more of them. -/
def leastExports (host : Host) (more : List String) : List String :=
  host.requiredExports ++ host.interfaceVersions.take 1 ++ more

/-- The interface of the least contract of a host, with some more functions. -/
def leastInterface (host : Host) (more : List String) : Interface where
  exports := ⟨"memory", "memory"⟩ :: (host.leastExports more).map (⟨·, "function"⟩)
  imports := host.importNames.map (⟨"env", ·, "function"⟩)

/-- The bytes of the least contract of a host, with some more functions.  It has one
signature, and every function that it exports is its first import. -/
def leastContract (host : Host) (more : List String) : Bytes :=
  Wasm.header ++ Wasm.sectionOf 1 [[0x60, 0, 0]] ++
    Wasm.sectionOf 2 (host.importNames.map fun name =>
      Wasm.asciiName "env" ++ Wasm.asciiName name ++ [0, 0]) ++
    Wasm.sectionOf 5 [[0, 1]] ++
    Wasm.sectionOf 7 ((Wasm.asciiName "memory" ++ [2, 0]) ::
      (host.leastExports more).map fun name => Wasm.asciiName name ++ [0, 0])

/-- A request to the host that grants nothing and derives nothing. -/
def leastRequest (host : Host) : Request := ⟨.empty, host.version, "none"⟩

end Host

/-- A contract is valid, and so is the binary from which it was cut by leaving out a custom
section. -/
theorem truncation_keeps_interface_custom :
    Wasm.compile {} (Host.cosmwasm1.leastContract []) =
        .ok (Host.cosmwasm1.leastInterface []) ∧
      Wasm.compile {} (Host.cosmwasm1.leastContract [] ++ Wasm.sectionOf 0 []) =
        .ok (Host.cosmwasm1.leastInterface []) ∧
      Wasm.AtBoundary (Host.cosmwasm1.leastContract [])
        (Host.cosmwasm1.leastContract [] ++ Wasm.sectionOf 0 []) ∧
      (validate (Host.cosmwasm1.leastContract []) Host.cosmwasm1.leastRequest).value =
        .ok .valid ∧
      (validate (Host.cosmwasm1.leastContract [] ++ Wasm.sectionOf 0 [])
        Host.cosmwasm1.leastRequest).value = .ok .valid := by
  have hcut : Wasm.compile {} (Host.cosmwasm1.leastContract []) =
      .ok (Host.cosmwasm1.leastInterface []) := by decide +kernel
  have hwhole : Wasm.compile {} (Host.cosmwasm1.leastContract [] ++ Wasm.sectionOf 0 []) =
      .ok (Host.cosmwasm1.leastInterface []) := by decide +kernel
  have hvalid : (validate (Host.cosmwasm1.leastContract [])
      Host.cosmwasm1.leastRequest).value = .ok .valid := by
    refine (validate_valid_iff hcut _).2 ?_
    decide +kernel
  obtain ⟨hboundary, -, -, hkept⟩ :=
    truncation_keeps_interface (List.prefix_append _ _) hcut hwhole
  exact ⟨hcut, hwhole, hboundary, hvalid, (hkept _ hvalid).2⟩

end ContractAdmission
