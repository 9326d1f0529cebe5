import ContractAdmission.Proofs.JsonText
import ContractAdmission.Report

/-!
# What a report says

The report of a verdict is one line of JSON, and the verdict can be had back from it.  So
nothing in the reason of a failure, which may quote any text of a contract, can end its string
and pass for another member of the report.

* `Report.Members` — the four members of a report as data, and `Members.toJson` as JSON.
* `Verdict.members` — the members of the report of a verdict.
* `Report.Members.verdict?` — the verdict that members stand for, if they stand for one.
* `report_loses_nothing` — a report is well formed, has these members, and determines the
  verdict.
-/

namespace ContractAdmission

/-- The members of a report. -/
structure Report.Members where
  valid : Bool
  kind : Option String
  category : Option String
  message : String
  deriving DecidableEq, Repr

/-- A text as JSON, where one is given. -/
def Json.ofOption : Option String → Json
  | none => .null
  | some text => .string text

/-- The text that a JSON value gives, where it gives one. -/
def Json.optional? : Json → Option (Option String)
  | .null => some none
  | .string text => some (some text)
  | _ => none

@[simp] theorem Json.optional?_ofOption (text : Option String) :
    (ofOption text).optional? = some text := by
  cases text with
  | none => rfl
  | some text => rfl

namespace Report.Members

/-- Members as a JSON object, which has their keys in this order and no others. -/
def toJson (members : Members) : Json :=
  .object [("valid", .bool members.valid), ("kind", .ofOption members.kind),
    ("category", .ofOption members.category), ("message", .string members.message)]

/-- The members that a JSON object consists of, if its keys are those of a report. -/
def ofJson? : Json → Option Members
  | .object [("valid", .bool valid), ("kind", kind), ("category", category),
      ("message", .string message)] =>
      match kind.optional?, category.optional? with
      | some kind, some category => some ⟨valid, kind, category, message⟩
      | _, _ => none
  | _ => none

/-- The verdict that members stand for.  Of a failure the category has to be that of its
kind. -/
def verdict? (members : Members) : Option Verdict :=
  match members.valid, members.kind, members.category with
  | true, none, none => some .valid
  | false, some kind, some category =>
      match Stage.ofKind? kind with
      | some stage =>
          if stage.category.label = category then some (.invalid stage members.message) else none
      | none => none
  | _, _, _ => none

/-- The members of a JSON object are read from it. -/
theorem ofJson?_toJson (members : Members) : ofJson? members.toJson = some members := by
  simp [ofJson?, toJson]

end Report.Members

namespace Verdict

/-- The members of the report of a verdict. -/
def members : Verdict → Report.Members
  | .valid => ⟨true, none, none, "Wasm contract is valid"⟩
  | .invalid stage reason => ⟨false, some stage.kind, some stage.category.label, reason⟩

/-- The verdict that a text reports, if it reports one. -/
def ofReport? (text : String) : Option Verdict :=
  ((Json.read? text).bind Report.Members.ofJson?).bind Report.Members.verdict?

theorem toJson_eq_members (verdict : Verdict) : verdict.toJson = verdict.members.toJson := by
  cases verdict with
  | valid => rfl
  | invalid stage reason => rfl

/-- A report is read as an object with the members of the verdict. -/
theorem read?_report (verdict : Verdict) :
    Json.read? verdict.report = some verdict.members.toJson := by
  rw [report, toJson_eq_members, Json.read?_render]

/-- The members of the report of a verdict stand for this verdict. -/
theorem verdict?_members (verdict : Verdict) : verdict.members.verdict? = some verdict := by
  cases verdict with
  | valid => rfl
  | invalid stage reason => simp [members, Report.Members.verdict?, Stage.ofKind?_kind]

/-- The verdict can be had back from its report. -/
theorem ofReport?_report (verdict : Verdict) : ofReport? verdict.report = some verdict := by
  rw [ofReport?, read?_report, Option.bind_some, Report.Members.ofJson?_toJson,
    Option.bind_some, verdict?_members]

end Verdict

/-- **A report loses nothing of the verdict.**

The report of a verdict has no control character and is a JSON object with exactly the members
`valid`, `kind`, `category` and `message`, in this order: whether the contract is valid; the kind
and the category of the failure, which are null exactly where there is none; and a message, which
is the reason of the failure.  The verdict can be had back from the text, and only equal verdicts
have the same report. -/
theorem report_loses_nothing :
    (∀ verdict : Verdict, Json.Plain verdict.report.toList ∧
      ∃ (kind category : Option String) (message : String),
        Json.read? verdict.report =
          some (.object [("valid", .bool verdict.ok), ("kind", .ofOption kind),
            ("category", .ofOption category), ("message", .string message)]) ∧
        (kind = none ↔ verdict = .valid) ∧ (category = none ↔ verdict = .valid) ∧
        (verdict = .valid → message = "Wasm contract is valid") ∧
        ∀ stage reason, verdict = .invalid stage reason →
          kind = some stage.kind ∧
            category = some (if stage = .capabilities then "capability" else "structural") ∧
            message = reason) ∧
    (∀ verdict : Verdict, Verdict.ofReport? verdict.report = some verdict) ∧
    (∀ first second : Verdict, first.report = second.report ↔ first = second) := by
  refine ⟨?_, Verdict.ofReport?_report, ?_⟩
  · intro verdict
    constructor
    · rw [Verdict.report, Json.render, String.toList_ofList]
      exact Json.plain_compact _
    · refine ⟨verdict.members.kind, verdict.members.category, verdict.members.message, ?_⟩
      have hread := verdict.read?_report
      cases verdict with
      | valid =>
          refine ⟨hread, by simp [Verdict.members], by simp [Verdict.members], fun _ => rfl, ?_⟩
          intro stage reason hverdict
          cases hverdict
      | invalid stage reason =>
          refine ⟨hread, by simp [Verdict.members], by simp [Verdict.members], ?_, ?_⟩
          · intro hverdict
            cases hverdict
          · intro other because hverdict
            cases hverdict
            refine ⟨rfl, ?_, rfl⟩
            cases stage <;> rfl
  · intro first second
    constructor
    · intro hsame
      have hread := first.ofReport?_report
      rw [hsame, second.ofReport?_report] at hread
      exact (Option.some.inj hread).symm
    · rintro rfl
      rfl

/-- A reason that imitates the end of a report is a message, and is read back as it was. -/
theorem report_loses_nothing_imitation :
    let verdict := Verdict.invalid .capabilities "x\",\"valid\":true\x7d\n\\\x01é"
    verdict.report = "\x7b\"valid\":false,\"kind\":\"capabilities\",\"category\":\"capability\"," ++
        "\"message\":\"x\\\",\\\"valid\\\":true\x7d\\n\\\\\\u0001é\"\x7d" ∧
      ∃ kind category message,
        Json.read? verdict.report =
          some (.object [("valid", .bool false), ("kind", .ofOption kind),
            ("category", .ofOption category), ("message", .string message)]) ∧
        kind = some "capabilities" ∧ category = some "capability" ∧
        message = "x\",\"valid\":true\x7d\n\\\x01é" := by
  intro verdict
  refine ⟨by decide +kernel, ?_⟩
  obtain ⟨-, kind, category, message, hread, -, -, -, hmembers⟩ := report_loses_nothing.1 verdict
  exact ⟨kind, category, message, hread, hmembers .capabilities _ rfl⟩

end ContractAdmission
