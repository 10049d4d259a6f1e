import Zeroshot.Verifier.Bounds

set_option autoImplicit false

/-!
# The production verifier

`verify` runs the analysis, then resolves every worker through the registry, and accepts a graph
only when neither has anything to report. What an accepted graph satisfies is read off the silent
analysis: names are unique, a quorum never exceeds its branches, and the fold has a value.
-/

namespace Zeroshot

open Reporting

/-! ## Workers -/

/-- `VerifierContract`. -/
structure VerifierContract where
  signals : OrdMap FieldName NonEmptyEnumSet
  diagnostic : PayloadType

/-- `WorkerDescriptor`, as far as compatibility reads it; `contractError` is what the descriptor's
own validation reports. -/
structure WorkerDescriptor where
  worker : WorkerRef
  graphProfiles : List GraphProfile
  input : PayloadType
  output : PayloadType
  verifier : Option VerifierContract
  contractError : Option String

inductive WorkerRegistryError
  | notFound (worker : WorkerRef)
  | versionUnavailable (worker : WorkerRef)

def WorkerRegistryError.message : WorkerRegistryError → String
  | notFound worker => "worker descriptor not found: " ++ worker.asStr
  | versionUnavailable worker => "worker descriptor version is unavailable: " ++ worker.asStr

/-- `WorkerRegistry::resolve`, at one moment. -/
abbrev WorkerRegistry := WorkerRef → Except WorkerRegistryError WorkerDescriptor

inductive WorkerCompatibilityCode
  | registry
  | descriptorContract
  | descriptorIdentity
  | graphProfile
  | input
  | output
  | verifierContract
  | signalField
  | signalLabels
  | diagnostic
  deriving DecidableEq, Repr

/-- The graph diagnostic a compatibility code becomes. -/
def WorkerCompatibilityCode.graphCode : WorkerCompatibilityCode → GraphDiagnosticCode
  | registry | descriptorContract | descriptorIdentity | graphProfile | verifierContract =>
    .invalidGraphShape
  | input | output | signalField | signalLabels | diagnostic => .schemaSafety

/-- `WorkerCompatibilityDiagnostic`; the path is the node it is about. -/
structure WorkerCompatibilityDiagnostic where
  code : WorkerCompatibilityCode
  node : NodeName
  message : String

def GraphProfile.asStr : GraphProfile → String
  | full => "openengine.graph.full/v1"
  | singleWorker => "openengine.graph.single-worker/v1"

/-- The messages whose condition holds. -/
def reportsWhen (node : NodeName) (checks : List (Bool × WorkerCompatibilityCode × String)) :
    List WorkerCompatibilityDiagnostic :=
  (checks.filter Prod.fst).map fun check => ⟨check.2.1, node, check.2.2⟩

/-- `check_verifier`. -/
def checkVerifier (node : VerifierNode) (descriptor : VerifierContract) :
    List WorkerCompatibilityDiagnostic :=
  (descriptor.signals.flatMap fun entry =>
    match OrdMap.get? node.signals entry.1 with
    | none => [⟨.signalField, node.name,
        "descriptor signal " ++ entry.1.asStr ++ " is absent from graph declaration"⟩]
    | some labels => reportsWhen node.name [(!entry.2.isSubset labels, .signalLabels,
        "descriptor labels for signal " ++ entry.1.asStr ++ " exceed graph labels")]) ++
    reportsWhen node.name [(!descriptor.diagnostic.isSubtypeOf node.diagnostic, .diagnostic,
      "descriptor diagnostic is not a subtype of graph diagnostic")]

/-- The part of `check_descriptor` that steps and verifiers share. -/
def checkContract (profile : GraphProfile) (node : NodeName) (worker : WorkerRef)
    (input output : PayloadType) (descriptor : WorkerDescriptor) :
    List WorkerCompatibilityDiagnostic :=
  reportsWhen node
    [(decide (descriptor.worker ≠ worker), .descriptorIdentity,
      "registry returned descriptor " ++ descriptor.worker.asStr ++ " for requested " ++
        worker.asStr),
     (!descriptor.graphProfiles.contains profile, .graphProfile,
      "descriptor does not allow graph profile " ++ profile.asStr),
     (!input.isSubtypeOf descriptor.input, .input,
      "graph input is not a subtype of descriptor input"),
     (!descriptor.output.isSubtypeOf output, .output,
      "descriptor output is not a subtype of graph output")]

/-- `check_descriptor`, and the registry's own errors. -/
def checkWorker (registry : WorkerRegistry) (profile : GraphProfile) :
    GraphNode → List WorkerCompatibilityDiagnostic
  | .step node => checkResolved node.name node.worker fun descriptor =>
      checkContract profile node.name node.worker node.input node.output descriptor ++
        reportsWhen node.name [(descriptor.verifier.isSome, .verifierContract,
          "step node resolved to a verifier-only descriptor")]
  | .verifier node => checkResolved node.name node.worker fun descriptor =>
      checkContract profile node.name node.worker node.input node.output descriptor ++
        match descriptor.verifier with
        | some contract => checkVerifier node contract
        | none => [⟨.verifierContract, node.name,
            "verifier node resolved to a non-verifier descriptor"⟩]
  | _ => []
where
  checkResolved (name : NodeName) (worker : WorkerRef)
      (check : WorkerDescriptor → List WorkerCompatibilityDiagnostic) :
      List WorkerCompatibilityDiagnostic :=
    match registry worker with
    | .error error => [⟨.registry, name, error.message⟩]
    | .ok descriptor =>
      match descriptor.contractError with
      | some error => [⟨.descriptorContract, name, "invalid resolved descriptor: " ++ error⟩]
      | none => check descriptor

/-- `check_graph_workers`, over the executables in authored order. -/
def checkGraphWorkers (registry : WorkerRegistry) (graph : GraphSpec) :
    List WorkerCompatibilityDiagnostic :=
  graph.root.descendants.flatMap (checkWorker registry graph.profile)

/-- `worker_diagnostic`. -/
def workerDiagnostic (analyzer : Analyzer) (found : WorkerCompatibilityDiagnostic) :
    GraphDiagnostic :=
  ⟨found.code.graphCode, found.message, analyzer.nodePath found.node, [found.node]⟩

/-! ## Verification -/

/-- `CompiledGraphIr`. -/
structure CompiledGraphIr where
  graph : GraphSpec
  bounds : StructuralBounds

inductive VerificationError
  | rejected (diagnostics : List GraphDiagnostic)
  | internal (message : String)

/-- `ProductionGraphVerifier::verify`, up to `finalize_verified`. -/
def verify (registry : WorkerRegistry) (graph : GraphSpec) :
    Except VerificationError CompiledGraphIr :=
  let analysis := analyzeGraph graph {}
  if !analysis.reports.isEmpty then .error (.rejected (sortDiagnostics analysis.reports))
  else
    let workers := checkGraphWorkers registry graph
    if !workers.isEmpty then
      .error (.rejected (sortDiagnostics (workers.map (workerDiagnostic analysis.state))))
    else
      match analysis.value.2.bind fun fold =>
          buildBounds analysis.state fold analysis.value.1 with
      | none =>
        .error (.internal "structurally valid graph did not produce structural bounds")
      | some bounds => .ok ⟨graph, bounds⟩

/-- The verifier accepts the graph. -/
def Verified (registry : WorkerRegistry) (graph : GraphSpec) : Prop :=
  ∃ compiled, verify registry graph = .ok compiled

theorem verified_iff {registry : WorkerRegistry} {graph : GraphSpec} :
    Verified registry graph ↔ (verify registry graph).isOk = true := by
  unfold Verified
  cases verify registry graph with
  | ok compiled => exact ⟨fun _ => rfl, fun _ => ⟨compiled, rfl⟩⟩
  | error error => exact ⟨fun ⟨_, h⟩ => (nomatch h), fun h => (nomatch h)⟩

instance (registry : WorkerRegistry) (graph : GraphSpec) : Decidable (Verified registry graph) :=
  decidable_of_iff _ verified_iff.symm

end Zeroshot
