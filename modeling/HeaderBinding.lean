import HeaderBinding.Text.Quoted
import HeaderBinding.Spelling.TypeMap
import HeaderBinding.Dump.Reader
import HeaderBinding.Dump.Walk
import HeaderBinding.Extraction
import HeaderBinding.BindingModule
import HeaderBinding.Settings.KeyPath
import HeaderBinding.Toml.Document
import HeaderBinding.Diagnostics
import HeaderBinding.FrontEnd
import HeaderBinding.Files.Change
import HeaderBinding.CommandLine
import HeaderBinding.Configuration
import HeaderBinding.Import
import HeaderBinding.Invocation
import HeaderBinding.Main
import HeaderBinding.Proofs.Spelling.Qualifier
import HeaderBinding.Proofs.Spelling.Plain
import HeaderBinding.Proofs.Import.Layout
import HeaderBinding.Proofs.BindingModule.Injectivity
import HeaderBinding.Proofs.Extraction.Content
import HeaderBinding.Proofs.Extraction.Interference
import HeaderBinding.Proofs.Extraction.SourceOrder
import HeaderBinding.Proofs.Extraction.Aliases
import HeaderBinding.Proofs.Extraction.Rejection
import HeaderBinding.Proofs.Extraction.Enumerators
import HeaderBinding.Proofs.Dump.Position
import HeaderBinding.Proofs.Dump.Field
import HeaderBinding.Proofs.Dump.Recovery
import HeaderBinding.Proofs.Files.Growth
import HeaderBinding.Proofs.Files.Replacement
import HeaderBinding.Proofs.Import.Failure
import HeaderBinding.Proofs.Configuration.Precedence
import HeaderBinding.Proofs.Import.Success
import HeaderBinding.Proofs.Spelling.Integer
import HeaderBinding.Proofs.Extraction.Redeclaration
import HeaderBinding.Proofs.Extraction.PositionalNames
import HeaderBinding.Proofs.Dump.Transparency
import HeaderBinding.Proofs.Spelling.Case
import HeaderBinding.Proofs.Spelling.Splitting
import HeaderBinding.Proofs.Dump.Places
import HeaderBinding.Proofs.Files.Respelling
import HeaderBinding.Proofs.Diagnostics
import HeaderBinding.Proofs.BindingModule.LinkClause
import HeaderBinding.Proofs.Event
import HeaderBinding.Proofs.Extraction.Log
import HeaderBinding.Proofs.Configuration.Inputs
import HeaderBinding.Proofs.Configuration.Shadowing
import HeaderBinding.Proofs.Configuration.UnknownKeys
