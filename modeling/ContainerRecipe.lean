import ContainerRecipe.Main
import ContainerRecipe.Proofs.Platform.Naming
import ContainerRecipe.Proofs.Bindings
import ContainerRecipe.Proofs.Datum.Arrangement
import ContainerRecipe.Proofs.Datum.Record
import ContainerRecipe.Proofs.Instruction.RoundTrip
import ContainerRecipe.Proofs.Instruction.Runs
import ContainerRecipe.Proofs.Instruction.Merged
import ContainerRecipe.Proofs.Instruction.EnvironmentRuns
import ContainerRecipe.Proofs.Instruction.CopyRuns
import ContainerRecipe.Proofs.Instruction.ShellRuns
import ContainerRecipe.Proofs.Instruction.ArgumentRuns
import ContainerRecipe.Proofs.Instruction.Pieces
import ContainerRecipe.Proofs.Instruction.LastBindings
import ContainerRecipe.Proofs.Script.Calls
import ContainerRecipe.Proofs.Outcome
import ContainerRecipe.Proofs.Render.Failure
import ContainerRecipe.Proofs.Render.Merging
import ContainerRecipe.Proofs.Script.Runs
import ContainerRecipe.Proofs.Shell.Quoting
import ContainerRecipe.Proofs.Script.Effects
import ContainerRecipe.Proofs.Script.Licenses
import ContainerRecipe.Proofs.Datum.Json
import ContainerRecipe.Proofs.Render.Dockerfile
import ContainerRecipe.Proofs.Instruction.RunscriptRuns
import ContainerRecipe.Proofs.Script.Growth
import ContainerRecipe.Proofs.Script.Names
import ContainerRecipe.Proofs.Script.Operations
import ContainerRecipe.Proofs.Script.References
import ContainerRecipe.Proofs.Script.Requests
import ContainerRecipe.Proofs.Formats
import ContainerRecipe.Proofs.Script.Veil
import ContainerRecipe.Proofs.Script.Parallel
import ContainerRecipe.Proofs.Script.Readings
import ContainerRecipe.Proofs.Script.Formats
import ContainerRecipe.Proofs.Stage.Runtime
import ContainerRecipe.Proofs.Render.Definition
import ContainerRecipe.Proofs.Script.Directories
import ContainerRecipe.Proofs.Script.Constants
import ContainerRecipe.Proofs.Script.Faults
import ContainerRecipe.Proofs.Script.Holdings
import ContainerRecipe.Proofs.Script.Handles
import ContainerRecipe.Proofs.Platform.Marks
import ContainerRecipe.Proofs.Render.Continuation
import ContainerRecipe.Proofs.Block.Configuration
import ContainerRecipe.Proofs.Script.Tables
import ContainerRecipe.Proofs.Script.Toolchains
import ContainerRecipe.Proofs.Shell.Grammar
import ContainerRecipe.Proofs.Shell.LineBreaks
import ContainerRecipe.Proofs.CommandLine.Arguments
import ContainerRecipe.Proofs.CommandLine.Output
import ContainerRecipe.Proofs.Render.Entrypoint
import ContainerRecipe.Proofs.Instruction.FirstSeen
import ContainerRecipe.Proofs.Instruction.Settled
import ContainerRecipe.Proofs.Render.Layers
import ContainerRecipe.Proofs.Render.CopySections
import ContainerRecipe.Proofs.Text.Route
import ContainerRecipe.Proofs.Block.Archive
import ContainerRecipe.Proofs.Block.Redistribution
import ContainerRecipe.Proofs.Render.ImageRoot
import ContainerRecipe.Proofs.Packages.Names
import ContainerRecipe.Proofs.Packages.Tools
import ContainerRecipe.Proofs.Packages.Order
import ContainerRecipe.Proofs.Block.Compilers
import ContainerRecipe.Proofs.Platform.Versions
import ContainerRecipe.Proofs.Script.CopyOptions
import ContainerRecipe.Proofs.Script.PackageOptions
import ContainerRecipe.Proofs.Platform.Spellings
import ContainerRecipe.Proofs.Platform.Overrides
import ContainerRecipe.Proofs.Platform.Inference
import ContainerRecipe.Proofs.Render.Exports
import ContainerRecipe.Proofs.Text.Filling
import ContainerRecipe.Proofs.Shell.Inert
import ContainerRecipe.Proofs.Text.Comments
