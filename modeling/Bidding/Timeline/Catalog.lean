import Bidding.Foundations.Binary64
import Bidding.Foundations.StableRank

/-!
# The milestones of a package

The catalog lists the milestones of a package by section, each with an anchor its rows are sorted by. What the
package and its contracts say decides whether a milestone applies; a repeatable milestone has a row for every
entity of its kind.
-/

namespace Bidding.Timeline

open Foundations

/-- The sections of the catalog, in their order. -/
inductive Section where
  | planAndEstimate
  | preparationConsultant
  | appraisalConsultant
  | eHsmt
  | selectionResult
  deriving DecidableEq

inductive ApplicabilityRule where
  | always
  | planSeparate
  | planCombined
  | consultantPreparation
  | consultantPreparationAppointment
  | expertTeam
  | consultantAppraisal
  | consultantAppraisalAppointment
  | appraisalTeam
  | standardTender
  | eHsmtAppraisal
  | relatedEntity
  | technicalAppraisal
  | twoEnvelope
  | optionalWhenData
  | contractNegotiation
  | optionalAppraisal
  deriving DecidableEq

inductive Tag where
  | plan
  | team
  | separatePlan
  | combinedPlan
  | consultant
  | preparationConsultant
  | optional
  | expertTeam
  | appraisal
  | appraisalConsultant
  | appraisalTeam
  | eHsmt
  | competitiveTender
  | eHsmtAppraisal
  | dynamic
  | adjustment
  | selectionResult
  | technicalResultAppraisal
  | twoEnvelopeOnly
  | contractorSelectionResultAppraisal
  deriving DecidableEq

/-- The kinds of entities a milestone is repeated for. -/
inductive EntityKind where
  | clarificationRequests
  | clarificationResponses
  | extensions
  | ehsmtAdjustments
  deriving DecidableEq

/-- A milestone of the catalog. -/
structure Milestone where
  milestoneKey : String
  sectionKey : Section
  applicabilityRule : ApplicabilityRule
  tags : List Tag
  repeatable : Option EntityKind
  sortAnchor : ℕ
  deriving DecidableEq

/-- `CATALOG["sections"]`. -/
def sections : List Section :=
  [.planAndEstimate, .preparationConsultant, .appraisalConsultant, .eHsmt, .selectionResult]

/-- `CATALOG["milestones"]`. -/
def milestones : List Milestone :=
  [
    ⟨"VALUATION_EVIDENCE", .planAndEstimate, .always, [.plan], none, 100⟩,
    ⟨"PLAN_TEAM_ESTABLISHMENT", .planAndEstimate, .always, [.plan, .team], none, 110⟩,
    ⟨"COST_ESTIMATE_SUBMISSION", .planAndEstimate, .planSeparate, [.plan, .separatePlan], none, 120⟩,
    ⟨"COST_ESTIMATE_APPROVAL", .planAndEstimate, .planSeparate, [.plan, .separatePlan], none, 130⟩,
    ⟨"PLAN_SUBMISSION", .planAndEstimate, .planSeparate, [.plan, .separatePlan], none, 140⟩,
    ⟨"PLAN_APPROVAL", .planAndEstimate, .planSeparate, [.plan, .separatePlan], none, 150⟩,
    ⟨"COMBINED_COST_PLAN_SUBMISSION", .planAndEstimate, .planCombined, [.plan, .combinedPlan], none, 160⟩,
    ⟨"COMBINED_COST_PLAN_APPROVAL", .planAndEstimate, .planCombined, [.plan, .combinedPlan], none, 170⟩,
    ⟨"PREPARATION_CONSULTANT_INVITATION", .preparationConsultant, .consultantPreparation,
      [.consultant, .preparationConsultant], none, 200⟩,
    ⟨"PREPARATION_CONSULTANT_APPLICATION", .preparationConsultant, .consultantPreparation,
      [.consultant, .preparationConsultant], none, 210⟩,
    ⟨"PREPARATION_CONSULTANT_CONTRACT_FINALIZATION", .preparationConsultant, .consultantPreparation,
      [.consultant, .preparationConsultant], none, 220⟩,
    ⟨"PREPARATION_CONSULTANT_APPOINTMENT_SUBMISSION", .preparationConsultant, .consultantPreparationAppointment,
      [.consultant, .preparationConsultant, .optional], none, 230⟩,
    ⟨"PREPARATION_CONSULTANT_APPOINTMENT", .preparationConsultant, .consultantPreparationAppointment,
      [.consultant, .preparationConsultant, .optional], none, 240⟩,
    ⟨"PREPARATION_CONSULTANT_CONTRACT", .preparationConsultant, .consultantPreparation,
      [.consultant, .preparationConsultant], none, 250⟩,
    ⟨"EXPERT_TEAM_ESTABLISHMENT", .preparationConsultant, .expertTeam, [.team, .expertTeam], none, 260⟩,
    ⟨"E_HSMT_ACCEPTANCE", .preparationConsultant, .consultantPreparation, [.consultant, .preparationConsultant], none, 270⟩,
    ⟨"EVALUATION_REPORT_ACCEPTANCE", .preparationConsultant, .consultantPreparation,
      [.consultant, .preparationConsultant], none, 280⟩,
    ⟨"PREPARATION_CONSULTANT_COMPLETION_VOLUME", .preparationConsultant, .consultantPreparation,
      [.consultant, .preparationConsultant], none, 290⟩,
    ⟨"PREPARATION_CONSULTANT_PAYMENT_REQUEST", .preparationConsultant, .consultantPreparation,
      [.consultant, .preparationConsultant], none, 300⟩,
    ⟨"PREPARATION_CONSULTANT_LIQUIDATION", .preparationConsultant, .consultantPreparation,
      [.consultant, .preparationConsultant], none, 310⟩,
    ⟨"APPRAISAL_CONSULTANT_INVITATION", .appraisalConsultant, .consultantAppraisal,
      [.appraisal, .consultant, .appraisalConsultant], none, 320⟩,
    ⟨"APPRAISAL_CONSULTANT_APPLICATION", .appraisalConsultant, .consultantAppraisal,
      [.appraisal, .consultant, .appraisalConsultant], none, 330⟩,
    ⟨"APPRAISAL_CONSULTANT_CONTRACT_FINALIZATION", .appraisalConsultant, .consultantAppraisal,
      [.appraisal, .consultant, .appraisalConsultant], none, 340⟩,
    ⟨"APPRAISAL_CONSULTANT_APPOINTMENT_SUBMISSION", .appraisalConsultant, .consultantAppraisalAppointment,
      [.appraisal, .consultant, .appraisalConsultant, .optional], none, 350⟩,
    ⟨"APPRAISAL_CONSULTANT_APPOINTMENT", .appraisalConsultant, .consultantAppraisalAppointment,
      [.appraisal, .consultant, .appraisalConsultant, .optional], none, 360⟩,
    ⟨"APPRAISAL_CONSULTANT_CONTRACT", .appraisalConsultant, .consultantAppraisal,
      [.appraisal, .consultant, .appraisalConsultant], none, 370⟩,
    ⟨"APPRAISAL_TEAM_ESTABLISHMENT", .appraisalConsultant, .appraisalTeam, [.appraisal, .team, .appraisalTeam], none, 380⟩,
    ⟨"E_HSMT_APPRAISAL_ACCEPTANCE", .appraisalConsultant, .consultantAppraisal,
      [.appraisal, .consultant, .appraisalConsultant], none, 390⟩,
    ⟨"RESULT_APPRAISAL_ACCEPTANCE", .appraisalConsultant, .consultantAppraisal,
      [.appraisal, .consultant, .appraisalConsultant], none, 400⟩,
    ⟨"APPRAISAL_CONSULTANT_COMPLETION_VOLUME", .appraisalConsultant, .consultantAppraisal,
      [.appraisal, .consultant, .appraisalConsultant], none, 410⟩,
    ⟨"APPRAISAL_CONSULTANT_PAYMENT_REQUEST", .appraisalConsultant, .consultantAppraisal,
      [.appraisal, .consultant, .appraisalConsultant], none, 420⟩,
    ⟨"APPRAISAL_CONSULTANT_LIQUIDATION", .appraisalConsultant, .consultantAppraisal,
      [.appraisal, .consultant, .appraisalConsultant], none, 430⟩,
    ⟨"E_HSMT_SUBMISSION", .eHsmt, .standardTender, [.eHsmt, .competitiveTender], none, 500⟩,
    ⟨"E_HSMT_APPRAISAL_REPORT", .eHsmt, .eHsmtAppraisal, [.appraisal, .eHsmtAppraisal], none, 510⟩,
    ⟨"E_HSMT_CLARIFICATION_REQUEST", .eHsmt, .relatedEntity, [.eHsmt, .dynamic], some .clarificationRequests, 520⟩,
    ⟨"E_HSMT_CLARIFICATION_RESPONSE", .eHsmt, .relatedEntity, [.eHsmt, .dynamic], some .clarificationResponses, 530⟩,
    ⟨"BID_DEADLINE_EXTENSION", .eHsmt, .relatedEntity, [.eHsmt, .dynamic], some .extensions, 540⟩,
    ⟨"E_HSMT_APPROVAL", .eHsmt, .standardTender, [.eHsmt, .competitiveTender], none, 550⟩,
    ⟨"E_HSMT_ADJUSTMENT_APPROVAL", .eHsmt, .relatedEntity, [.eHsmt, .dynamic, .adjustment], some .ehsmtAdjustments, 560⟩,
    ⟨"BID_OPENING_MINUTES", .selectionResult, .standardTender, [.selectionResult, .competitiveTender], none, 600⟩,
    ⟨"BID_EVALUATION_REPORT", .selectionResult, .standardTender, [.selectionResult, .competitiveTender], none, 610⟩,
    ⟨"TECHNICAL_RESULT_APPRAISAL", .selectionResult, .technicalAppraisal,
      [.appraisal, .technicalResultAppraisal, .twoEnvelopeOnly], none, 620⟩,
    ⟨"TECHNICAL_QUALIFIED_APPROVAL", .selectionResult, .twoEnvelope, [.selectionResult, .twoEnvelopeOnly], none, 630⟩,
    ⟨"FINANCIAL_OPENING_MINUTES", .selectionResult, .twoEnvelope, [.selectionResult, .twoEnvelopeOnly], none, 640⟩,
    ⟨"FINANCIAL_EVALUATION_REPORT", .selectionResult, .twoEnvelope, [.selectionResult, .twoEnvelopeOnly], none, 650⟩,
    ⟨"DOCUMENT_RECONCILIATION_INVITATION", .selectionResult, .optionalWhenData, [.selectionResult, .optional], none, 660⟩,
    ⟨"DOCUMENT_RECONCILIATION_MINUTES", .selectionResult, .optionalWhenData, [.selectionResult, .optional], none, 670⟩,
    ⟨"CONTRACT_NEGOTIATION", .selectionResult, .contractNegotiation, [.selectionResult, .optional], none, 680⟩,
    ⟨"CONTRACTOR_SELECTION_RESULT_APPRAISAL", .selectionResult, .optionalAppraisal,
      [.appraisal, .contractorSelectionResultAppraisal, .optional], none, 690⟩,
    ⟨"CONTRACTOR_SELECTION_RESULT_APPROVAL", .selectionResult, .always, [.selectionResult], none, 700⟩,
    ⟨"CONTRACT_AWARD_NOTICE", .selectionResult, .always, [.selectionResult], none, 710⟩,
    ⟨"CONTRACT_FINALIZATION_MINUTES", .selectionResult, .always, [.selectionResult], none, 720⟩]

/-! ## Applicability -/

/-- `hinhThucLuaChon`, by its code. -/
inductive SelectionMethod where
  | openTender
  | limitedTender
  | directAppointment
  | directAppointmentSimplified
  | competitiveOffering
  | specialSelection
  | undetermined
  deriving DecidableEq

/-- `phuongThucLuaChon`, by its code. -/
inductive SelectionProcedure where
  | oneStageOneEnvelope
  | oneStageTwoEnvelopes
  | undetermined
  deriving DecidableEq

/-- `pheDuyet`, by its code. -/
inductive PlanApproval where
  | separate
  | combined
  | undetermined
  deriving DecidableEq

/-- `normalize_ehsmt_appraisal_requirement(package)`. -/
inductive AppraisalRequirement where
  | required
  | notRequired
  | undetermined
  deriving DecidableEq

/-- What the rules read off the package, its plan and its contracts. -/
structure TimelineFacts where
  selectionMethod : SelectionMethod
  selectionProcedure : SelectionProcedure
  planApproval : PlanApproval
  isConsultingPackage : Bool
  preparationInternal : Bool
  preparationAppointmentDecision : Bool
  preparationContract : Bool
  expertTeam : Bool
  appraisalInternal : Bool
  appraisalAppointmentDecision : Bool
  appraisalContract : Bool
  appraisalTeam : Bool
  appraisalReport : Bool
  appraisalRequirement : AppraisalRequirement
  deriving DecidableEq

inductive Applicability where
  | applicable
  | conditional
  | notApplicable
  deriving DecidableEq

def mandatoryTwoEnvelopeMilestones : List String :=
  ["DOCUMENT_RECONCILIATION_INVITATION", "DOCUMENT_RECONCILIATION_MINUTES", "CONTRACT_NEGOTIATION",
    "CONTRACTOR_SELECTION_RESULT_APPRAISAL", "TECHNICAL_RESULT_APPRAISAL"]

/-- The branches of the rules after the exclusions. -/
def ruleBranch (rule : ApplicabilityRule) (facts : TimelineFacts) (hasData : Bool) : Applicability × String :=
  match rule with
  | .planSeparate =>
    match facts.planApproval with
    | .combined => (.notApplicable, "EXCLUDED_BY_COMBINED_PLAN")
    | .separate => (.applicable, "INCLUDED_BY_SEPARATE_PLAN")
    | .undetermined => (.conditional, "WAITING_FOR_PLAN_APPROVAL_MODE")
  | .planCombined =>
    match facts.planApproval with
    | .separate => (.notApplicable, "EXCLUDED_BY_SEPARATE_PLAN")
    | .combined => (.applicable, "INCLUDED_BY_COMBINED_PLAN")
    | .undetermined => (.conditional, "WAITING_FOR_PLAN_APPROVAL_MODE")
  | .eHsmtAppraisal =>
    let evidence := facts.appraisalReport || facts.appraisalContract || facts.appraisalTeam || hasData
    if facts.appraisalRequirement = .notRequired ∧ evidence then (.conditional, "CONFLICT_E_HSMT_APPRAISAL_DATA")
    else if facts.appraisalRequirement = .notRequired then
      (.notApplicable, "EXCLUDED_BY_E_HSMT_APPRAISAL_DECISION")
    else if facts.appraisalRequirement = .required ∨ evidence then
      (.applicable, if evidence then "INCLUDED_BY_APPRAISAL_DATA" else "INCLUDED_BY_E_HSMT_APPRAISAL_DECISION")
    else (.conditional, "WAITING_FOR_E_HSMT_APPRAISAL_DECISION")
  | .twoEnvelope =>
    match facts.selectionProcedure with
    | .oneStageTwoEnvelopes => (.applicable, "INCLUDED_BY_ONE_STAGE_TWO_ENVELOPES")
    | .undetermined => (.conditional, "WAITING_FOR_SELECTION_PROCEDURE")
    | .oneStageOneEnvelope => (.notApplicable, "EXCLUDED_BY_SELECTION_PROCEDURE")
  | .technicalAppraisal =>
    match facts.selectionProcedure with
    | .undetermined => (.conditional, "WAITING_FOR_SELECTION_PROCEDURE")
    | .oneStageOneEnvelope => (.notApplicable, "EXCLUDED_BY_SELECTION_PROCEDURE")
    | .oneStageTwoEnvelopes =>
      if hasData then (.applicable, "INCLUDED_BY_TECHNICAL_APPRAISAL_DATA")
      else (.conditional, "WAITING_FOR_TECHNICAL_APPRAISAL_DATA")
  | .consultantPreparation =>
    if facts.preparationInternal then (.notApplicable, "EXCLUDED_BY_INTERNAL_PREPARATION")
    else if facts.preparationContract then (.applicable, "INCLUDED_BY_PREPARATION_CONSULTANT_DATA")
    else if facts.expertTeam || facts.isConsultingPackage || hasData then
      (.applicable, "INCLUDED_BY_PREPARATION_CONSULTANT_PROCESS")
    else (.notApplicable, "EXCLUDED_WITHOUT_PREPARATION_CONSULTANT_CONTRACT")
  | .consultantAppraisal =>
    if facts.appraisalInternal then (.notApplicable, "EXCLUDED_BY_INTERNAL_APPRAISAL")
    else if facts.appraisalContract then (.applicable, "INCLUDED_BY_APPRAISAL_CONSULTANT_DATA")
    else if facts.appraisalTeam || facts.isConsultingPackage || hasData then
      (.applicable, "INCLUDED_BY_APPRAISAL_CONSULTANT_PROCESS")
    else (.notApplicable, "EXCLUDED_WITHOUT_APPRAISAL_CONSULTANT_CONTRACT")
  | .expertTeam =>
    if facts.expertTeam || facts.isConsultingPackage || hasData then (.applicable, "INCLUDED_BY_EXPERT_TEAM_DATA")
    else (.conditional, "WAITING_FOR_EXPERT_TEAM_DATA")
  | .appraisalTeam =>
    if !facts.appraisalContract && !facts.appraisalTeam && !facts.isConsultingPackage && !hasData then
      (.notApplicable, "EXCLUDED_WITHOUT_APPRAISAL_CONSULTANT_CONTRACT")
    else if facts.appraisalTeam || facts.isConsultingPackage || hasData then
      (.applicable, "INCLUDED_BY_APPRAISAL_TEAM_DATA")
    else (.conditional, "WAITING_FOR_APPRAISAL_TEAM_DATA")
  | .optionalWhenData | .optionalAppraisal =>
    if hasData then (.applicable, "INCLUDED_BY_BUSINESS_DATA")
    else (.conditional, "WAITING_FOR_OPTIONAL_BUSINESS_DATA")
  | .standardTender =>
    if facts.selectionMethod = .specialSelection then
      if hasData then (.applicable, "INCLUDED_BY_SPECIAL_SELECTION_DATA")
      else (.conditional, "WAITING_FOR_SPECIAL_SELECTION_PLAN")
    else (.applicable, "INCLUDED_BY_STANDARD_TENDER")
  | _ => (.applicable, "DEFAULT_APPLICABLE")

def ruleResult (definition : Milestone) (facts : TimelineFacts) (hasData : Bool) : Applicability × String :=
  let tags := definition.tags
  let rule := definition.applicabilityRule
  if rule = .consultantPreparationAppointment then
    if facts.preparationInternal then (.notApplicable, "EXCLUDED_BY_INTERNAL_PREPARATION")
    else if facts.preparationAppointmentDecision then
      (.applicable, "INCLUDED_BY_PREPARATION_APPOINTMENT_DECISION")
    else if facts.expertTeam || facts.isConsultingPackage || hasData then
      (.applicable, "INCLUDED_BY_PREPARATION_CONSULTANT_PROCESS")
    else (.notApplicable, "EXCLUDED_WITHOUT_PREPARATION_APPOINTMENT_DECISION")
  else if rule = .consultantAppraisalAppointment then
    if facts.appraisalInternal then (.notApplicable, "EXCLUDED_BY_INTERNAL_APPRAISAL")
    else if facts.appraisalAppointmentDecision then (.applicable, "INCLUDED_BY_APPRAISAL_APPOINTMENT_DECISION")
    else if facts.appraisalTeam || facts.isConsultingPackage || hasData then
      (.applicable, "INCLUDED_BY_APPRAISAL_CONSULTANT_PROCESS")
    else (.notApplicable, "EXCLUDED_WITHOUT_APPRAISAL_APPOINTMENT_DECISION")
  else if facts.selectionMethod = .competitiveOffering ∧ .appraisal ∈ tags then
    (.notApplicable, "EXCLUDED_BY_COMPETITIVE_OFFERING")
  else if facts.selectionProcedure = .oneStageOneEnvelope ∧ .twoEnvelopeOnly ∈ tags then
    (.notApplicable, "EXCLUDED_BY_ONE_STAGE_ONE_ENVELOPE")
  else if facts.selectionMethod ∈ [.directAppointment, .directAppointmentSimplified] ∧ .competitiveTender ∈ tags then
    (.notApplicable, "EXCLUDED_BY_DIRECT_APPOINTMENT")
  else if facts.selectionMethod = .directAppointmentSimplified ∧ .appraisal ∈ tags then
    (.notApplicable, "EXCLUDED_BY_SIMPLIFIED_DIRECT_APPOINTMENT")
  else if facts.selectionProcedure = .oneStageTwoEnvelopes ∧
      definition.milestoneKey ∈ mandatoryTwoEnvelopeMilestones then
    (.applicable, "INCLUDED_BY_ONE_STAGE_TWO_ENVELOPES")
  else if rule = .contractNegotiation then
    if facts.selectionMethod = .directAppointmentSimplified ∨ facts.selectionProcedure = .oneStageTwoEnvelopes ∨
        facts.isConsultingPackage then
      if hasData then (.applicable, "INCLUDED_BY_CONTRACT_NEGOTIATION_DATA")
      else (.conditional, "WAITING_FOR_CONTRACT_NEGOTIATION_DATA")
    else (.notApplicable, "EXCLUDED_BY_CONTRACT_NEGOTIATION_SCOPE")
  else if facts.selectionMethod = .directAppointmentSimplified ∧ .optional ∈ tags ∧ !hasData then
    (.notApplicable, "EXCLUDED_BY_SIMPLIFIED_DIRECT_APPOINTMENT")
  else ruleBranch rule facts hasData

end Bidding.Timeline
