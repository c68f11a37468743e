import CompilerDriver.Main
import CompilerDriver.Proofs.TemporaryFormat
import CompilerDriver.Proofs.Drawing
import CompilerDriver.Proofs.AcceptedPlan
import CompilerDriver.Proofs.UnitAdvance
import CompilerDriver.Proofs.StageTurn
import CompilerDriver.Proofs.StageDraws
import CompilerDriver.Proofs.PipelineProgress
import CompilerDriver.Proofs.AssemblyRounds
import CompilerDriver.Proofs.StandardAssembly
import CompilerDriver.Proofs.AssembledPlan
import CompilerDriver.Proofs.FinalOutputs
import CompilerDriver.Proofs.ActionOrder
import CompilerDriver.Proofs.Dataflow
import CompilerDriver.Proofs.AssemblySuccess
import CompilerDriver.Proofs.ExecutionRun
import CompilerDriver.Proofs.ErrorPhases
import CompilerDriver.Proofs.FileLifetime
import CompilerDriver.Proofs.CleanUp
import CompilerDriver.Proofs.RunOnce
import CompilerDriver.Proofs.PipelineSettings
import CompilerDriver.Proofs.AlikePlans
import CompilerDriver.Proofs.ComparedRuns
import CompilerDriver.Proofs.PipelineIndependence
import CompilerDriver.Proofs.AssemblySettings
import CompilerDriver.Proofs.DryRun
import CompilerDriver.Proofs.AssemblySteps
import CompilerDriver.Proofs.AuditTrail
import CompilerDriver.Proofs.ArtifactPaths
import CompilerDriver.Proofs.CompileOnly
import CompilerDriver.Proofs.RenamedFiles
import CompilerDriver.Proofs.Truncation
import CompilerDriver.Proofs.BuildableConfig
import CompilerDriver.Proofs.UnitCursor
import CompilerDriver.Proofs.FailFast
import CompilerDriver.Proofs.SessionSteps
import CompilerDriver.Proofs.RegistryHistory
import CompilerDriver.Proofs.AssemblyErrors
import CompilerDriver.Proofs.TextEncoding
import CompilerDriver.Proofs.WrittenOptions
import CompilerDriver.Proofs.RenderedArguments
import CompilerDriver.Proofs.ConfigurationLayers
import CompilerDriver.Proofs.CommandFiles
import CompilerDriver.Proofs.ReportedOutputs
import CompilerDriver.Proofs.UnitStrands
import CompilerDriver.Proofs.UnitIndependence
import CompilerDriver.Proofs.PairedRuns
import CompilerDriver.Proofs.TwinAssemblies
import CompilerDriver.Proofs.StepOrder
import CompilerDriver.Proofs.DeviceLibrary
import CompilerDriver.Proofs.TemporaryPlace
