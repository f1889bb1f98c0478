import SolutionLists.Abstractions
import SolutionLists.Assembler
import SolutionLists.Classification
import SolutionLists.Cleaning
import SolutionLists.CommandLine.Arguments
import SolutionLists.CommandLine.Manual
import SolutionLists.CommandLine.Run
import SolutionLists.Configuration
import SolutionLists.ContextPlan
import SolutionLists.Decimal.Double
import SolutionLists.Decimal.Notation
import SolutionLists.Decimal.Shortest
import SolutionLists.Define
import SolutionLists.Description.Context
import SolutionLists.Description.File
import SolutionLists.Description.Index
import SolutionLists.Description.Reading
import SolutionLists.Description.Writing
import SolutionLists.Diagnostic
import SolutionLists.Document.Json
import SolutionLists.Document.Source
import SolutionLists.Document.Value
import SolutionLists.Environment
import SolutionLists.Files.Progress
import SolutionLists.Files.Tree
import SolutionLists.Files.Update
import SolutionLists.Generation
import SolutionLists.Inheritance
import SolutionLists.Language
import SolutionLists.Link
import SolutionLists.Lists.Context
import SolutionLists.Lists.Line
import SolutionLists.Lists.Processor
import SolutionLists.Lists.Statement
import SolutionLists.Lists.Super
import SolutionLists.Log
import SolutionLists.Ordered
import SolutionLists.Path.Anchor
import SolutionLists.Path.Component
import SolutionLists.Path.Lexical
import SolutionLists.Proofs.LanguageMap
import SolutionLists.Proofs.Target.Flow
import SolutionLists.Proofs.Target.Site
import SolutionLists.Roots
import SolutionLists.Selection
import SolutionLists.Session
import SolutionLists.Settings
import SolutionLists.Setup
import SolutionLists.Solution
import SolutionLists.Steps.Dependencies
import SolutionLists.Steps.Graph
import SolutionLists.Steps.Unmet
import SolutionLists.Target.Directive
import SolutionLists.Target.Name
import SolutionLists.Target.Tree
import SolutionLists.Text.Blank
import SolutionLists.Text.Number
import SolutionLists.Text.Search
import SolutionLists.Text.Wildcard
import SolutionLists.Text.Word
import SolutionLists.Toml.Document
import SolutionLists.Toml.Scalar
import SolutionLists.Toml.Table
import SolutionLists.Toolchain.Catalog
import SolutionLists.Toolchain.Discovery
import SolutionLists.Version.Basic
import SolutionLists.Version.Constraint
import SolutionLists.Version.Range
import SolutionLists.Yaml.Document
import SolutionLists.Yaml.Layout
import SolutionLists.Yaml.Mark
import SolutionLists.Yaml.Node
import SolutionLists.Yaml.Scalar
import SolutionLists.Yaml.Schema
import SolutionLists.Yaml.Token
import SolutionLists.Main
import SolutionLists.Proofs.Target.Distinct
import SolutionLists.Proofs.Target.Inheritance
import SolutionLists.Proofs.Target.Removal
import SolutionLists.Proofs.Abstractions
import SolutionLists.Proofs.Classification
import SolutionLists.Proofs.Languages
import SolutionLists.Proofs.Target.Linking
import SolutionLists.Proofs.Target.Bundle
import SolutionLists.Proofs.Target.Serving
import SolutionLists.Proofs.Steps.Reach
import SolutionLists.Proofs.Steps.Cycle
import SolutionLists.Proofs.Steps.Declared
import SolutionLists.Proofs.Toolchain.Choice
import SolutionLists.Proofs.Version.Range
import SolutionLists.Proofs.Version.Comparator
import SolutionLists.Proofs.Version.Constraint
import SolutionLists.Proofs.Target.LinkOrder
import SolutionLists.Proofs.Target.References
import SolutionLists.Proofs.Target.Nodes
import SolutionLists.Proofs.Includes
import SolutionLists.Proofs.Target.InterfaceIncludes
import SolutionLists.Proofs.Target.IncludeStatements
import SolutionLists.Proofs.Target.Privacy
import SolutionLists.Proofs.Lists.Byproducts
import SolutionLists.Proofs.Path.Behind
import SolutionLists.Proofs.Path.Relative
import SolutionLists.Proofs.Path.Spelling
import SolutionLists.Proofs.Target.Deletion
import SolutionLists.Proofs.Target.Trim
import SolutionLists.Proofs.Target.Heard
import SolutionLists.Proofs.Target.PassedGroups
import SolutionLists.Proofs.Target.Templates
import SolutionLists.Proofs.Target.Names
import SolutionLists.Proofs.Lists.StepTargets
import SolutionLists.Proofs.Files.Walk
import SolutionLists.Proofs.Files.Growth
import SolutionLists.Proofs.Generation.Stages
import SolutionLists.Proofs.Generation.Inputs
import SolutionLists.Proofs.Generation.Repetition
import SolutionLists.Proofs.Files.Clearing
import SolutionLists.Proofs.Generation.Cleaning
import SolutionLists.Proofs.Assembler
import SolutionLists.Proofs.Target.AssemblySources
import SolutionLists.Proofs.Target.UnitIncludes
import SolutionLists.Proofs.Supported
import SolutionLists.Proofs.Target.Unsupported
import SolutionLists.Proofs.Steps.Available
import SolutionLists.Proofs.Steps.Following
import SolutionLists.Proofs.Factoring
import SolutionLists.Proofs.Path.Meaning
import SolutionLists.Proofs.Path.Place
import SolutionLists.Proofs.Path.KeptPlace
import SolutionLists.Proofs.Headers
import SolutionLists.Proofs.Version.Written
import SolutionLists.Proofs.Version.Grammar
import SolutionLists.Proofs.Version.Exact
import SolutionLists.Proofs.Ordered
import SolutionLists.Proofs.Filled
import SolutionLists.Proofs.Classification.Buckets
import SolutionLists.Proofs.Classification.Partition
import SolutionLists.Proofs.Classification.Foresight
import SolutionLists.Proofs.Classification.Precedence
import SolutionLists.Proofs.Steps.Entries
import SolutionLists.Proofs.Target.PreIncludes
import SolutionLists.Proofs.Layers
import SolutionLists.Proofs.Text
import SolutionLists.Proofs.Toolchain.Recorded
import SolutionLists.Proofs.Toolchain.Naming
import SolutionLists.Proofs.Path.ToolOption
import SolutionLists.Proofs.Lists.SourceSettings
import SolutionLists.Proofs.Lists.CompileFlags
import SolutionLists.Proofs.Lists.IncludeReading
import SolutionLists.Proofs.Session
import SolutionLists.Proofs.Target.NameCharacters
import SolutionLists.Proofs.Lists.CommandVariables
import SolutionLists.Proofs.Lists.DefinitionReading
