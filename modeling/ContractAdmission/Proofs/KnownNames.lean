import ContractAdmission.Proofs.CommandLine
import ContractAdmission.Proofs.Sources

/-!
# The names that a run looks up

A run looks up a host version and a policy, each taken from the command line or else
from the configuration.  The command line admits known names only, and so does the
configuration, so the lookups of a run never fail.

* `Arguments.limited_of_parse` — an accepted command line names known hosts and policies.
* `Config.known_of_ofSettings` — so does a configuration that was validated.
* `Arguments.request_known` — hence so does what a run asks for.
-/

namespace ContractAdmission

/-- A known version has a host. -/
theorem Host.resolve_of_known {version : String} (h : version ∈ Host.knownVersions) :
    ∃ host, Host.resolve version = .ok host := by
  obtain ⟨host, hhost⟩ := Option.isSome_iff_exists.1 (Host.isSome_ofVersion?_iff.2 h)
  exact ⟨host, by rw [Host.resolve, hhost]⟩

/-- A known name has a policy. -/
theorem Policy.resolve_of_known {name : String} (h : name ∈ Policy.knownNames) :
    ∃ policy, Policy.resolve name = .ok policy := by
  obtain ⟨policy, hpolicy⟩ := Option.isSome_iff_exists.1 (Policy.isSome_ofName?_iff.2 h)
  exact ⟨policy, by rw [Policy.resolve, hpolicy]⟩

namespace Config

/-- A configuration that was validated names a known host version and a known policy,
wherever they come from. -/
theorem known_of_ofSettings {environment : Environment} {settings : Settings}
    {config : Config} (h : ofSettings environment settings = .ok config) :
    config.hostVersion ∈ Host.knownVersions ∧ config.policyName ∈ Policy.knownNames := by
  obtain ⟨version, hversion, heffective⟩ := allows_of_ofSettings h .hostVersion
  obtain ⟨name, hname, heffective'⟩ := allows_of_ofSettings h .policyName
  unfold ofSettings at h
  split at h
  · cases h
    rw [heffective, heffective']
    exact ⟨hversion, hname⟩
  · cases h

end Config

namespace Cli

/-- Options that name known hosts and policies only. -/
def Options.Limited (options : Options) : Prop :=
  (∀ version, options.hostVersion = some version → version ∈ Host.knownVersions) ∧
    ∀ name, options.policyName = some name → name ∈ Policy.knownNames

namespace Options

/-- A use sets no more than the field of its own option. -/
theorem limited_of_set {options next : Options} {use : Use} (hlimited : options.Limited)
    (hversion : use.opt = .hostVersion → ∀ version, use.value = some version →
      version ∈ Host.knownVersions)
    (hname : use.opt = .policy → ∀ name, use.value = some name → name ∈ Policy.knownNames)
    (h : options.set use = .ok next) : next.Limited := by
  obtain ⟨opt, value⟩ := use
  cases opt with
  | help => cases h
  | hostVersion =>
      cases h
      exact ⟨hversion rfl, hlimited.2⟩
  | policy =>
      cases h
      exact ⟨hlimited.1, hname rfl⟩
  | capabilities => cases h; exact hlimited
  | config => cases h; exact hlimited
  | json => cases h; exact hlimited
  | verbose => cases h; exact hlimited

/-- A use with a value that its option does not allow is refused. -/
theorem limited_of_take {options next : Options} {use : Use} (hlimited : options.Limited)
    (h : options.take use = .ok next) : next.Limited := by
  unfold take at h
  split at h
  · rename_i hnone
    refine limited_of_set hlimited ?_ ?_ h
    · intro _ version hvalue
      rw [hnone] at hvalue
      cases hvalue
    · intro _ name hvalue
      rw [hnone] at hvalue
      cases hvalue
  · rename_i value hsome
    split at h
    · rename_i hallowed
      refine limited_of_set hlimited ?_ ?_ h
      · rintro hopt version hvalue
        rw [hsome] at hvalue
        cases hvalue
        simpa [Opt.allows, hopt, Opt.choices?] using hallowed
      · rintro hopt name hvalue
        rw [hsome] at hvalue
        cases hvalue
        simpa [Opt.allows, hopt, Opt.choices?] using hallowed
    · cases h

/-- Several uses keep what each of them keeps. -/
theorem takeAll_keeps {P : Options → Prop}
    (hstep : ∀ options use next, P options → options.take use = .ok next → P next)
    {uses : List Use} {options next : Options} (hkept : P options)
    (h : options.takeAll uses = .ok next) : P next := by
  induction uses generalizing options with
  | nil =>
      cases h
      exact hkept
  | cons use rest ih =>
      rw [takeAll, List.foldlM_cons] at h
      cases htake : options.take use with
      | error stop =>
          rw [htake] at h
          cases h
      | ok middle =>
          rw [htake] at h
          exact ih (hstep options use middle hkept htake) h

end Options

namespace Arguments

/-- An accepted command line has what the empty options have and every use keeps. -/
theorem keeps_of_parse {P : Options → Prop} (hempty : P {})
    (hstep : ∀ options use next, P options → options.take use = .ok next → P next)
    {words : List String} {arguments : Arguments} (h : parse words = .ok arguments) :
    P arguments.options :=
  Options.takeAll_keeps hstep hempty (takeAll_usesOf h)

/-- An accepted command line names known hosts and policies only. -/
theorem limited_of_parse {words : List String} {arguments : Arguments}
    (h : parse words = .ok arguments) : arguments.options.Limited := by
  have hempty : Options.Limited {} := by
    constructor
    · intro version hversion
      cases hversion
    · intro name hname
      cases hname
  exact keeps_of_parse hempty (fun _ _ _ => Options.limited_of_take) h

/-- A configuration that a run goes by names a known host version and a known policy. -/
theorem configuration_known {arguments : Arguments} {world : World} {config : Config}
    (h : arguments.configuration world = .ok config) :
    config.hostVersion ∈ Host.knownVersions ∧ config.policyName ∈ Policy.knownNames := by
  obtain ⟨settings, -, hsettings⟩ := exists_settings_of_configuration h
  exact Config.known_of_ofSettings hsettings

/-- What a run asks for has a known host version and a known policy. -/
theorem request_known {words : List String} {arguments : Arguments} {world : World}
    {config : Config} {request : Request} (hwords : parse words = .ok arguments)
    (hconfig : arguments.configuration world = .ok config)
    (hrequest : arguments.request? config = some request) :
    request.hostVersion ∈ Host.knownVersions ∧ request.policyName ∈ Policy.knownNames := by
  obtain ⟨hversion, hname⟩ := limited_of_parse hwords
  obtain ⟨hversion', hname'⟩ := configuration_known hconfig
  obtain ⟨granted, -, rfl⟩ := Option.map_eq_some_iff.1 hrequest
  constructor
  · cases hgiven : arguments.options.hostVersion with
    | none => simpa [hgiven] using hversion'
    | some version => simpa [hgiven] using hversion version hgiven
  · cases hgiven : arguments.options.policyName with
    | none => simpa [hgiven] using hname'
    | some name => simpa [hgiven] using hname name hgiven

end Arguments
end Cli
end ContractAdmission
