import Unimported.Main
import Unimported.FileTree.Edit
import Unimported.Proofs.Path.Components
import Unimported.Proofs.Path.Normal
import Unimported.Proofs.Path.Set
import Unimported.Proofs.Path.Spelling
import Unimported.Proofs.Path.Destination
import Unimported.Proofs.Reachability
import Unimported.Proofs.Discovery
import Unimported.Proofs.Scan
import Unimported.Proofs.Candidate
import Unimported.Proofs.UnusedFiles
import Unimported.Proofs.Specifier
import Unimported.Proofs.FileTree.LinkFree
import Unimported.Proofs.FileTree.Deletion
import Unimported.Proofs.DeletedFiles
import Unimported.Proofs.CurrentDirectory
import Unimported.Proofs.RootName
import Unimported.Proofs.FileTree.Contents
import Unimported.Proofs.FileContents
import Unimported.Proofs.Accounting
import Unimported.Proofs.AppendedText
import Unimported.Proofs.FileTree.Addition
import Unimported.Proofs.FileTree.NormalForm
import Unimported.Proofs.AddedFile
import Unimported.Proofs.Comparison
import Unimported.Proofs.ExtensionSet
import Unimported.Proofs.Path.Respelling
import Unimported.Proofs.CommandLine
import Unimported.Proofs.FileTree.Spelling
import Unimported.Proofs.FileTree.Writing
import Unimported.Proofs.Json.Grammar
import Unimported.Proofs.Json.Reader
import Unimported.Proofs.Json.Report
import Unimported.Proofs.RootSpelling
import Unimported.Proofs.Run
import Unimported.Proofs.LexicalTarget
import Unimported.Proofs.EntryPoints
import Unimported.Proofs.SourceFiles
import Unimported.Proofs.ImportLine
import Unimported.Proofs.RootBoundary
import Unimported.Proofs.DirectoryImport
import Unimported.Proofs.ExtensionSuffix
import Unimported.Proofs.Text.Utf8
import Unimported.Proofs.Text.Run
import Unimported.Proofs.LexicalLookup
import Unimported.Proofs.ShownPaths
import Unimported.Proofs.TerminalLines
import Unimported.Proofs.Yaml.Root
import Unimported.Proofs.Yaml.Scanner
import Unimported.Proofs.Yaml.Plain
import Unimported.Proofs.Yaml.Opening
import Unimported.Proofs.Toml.FirstStatement
import Unimported.Proofs.QuotedKey
import Unimported.Proofs.TomlAsYaml
import Unimported.Proofs.ConfigLanguage
import Unimported.Proofs.ConfigProbe
import Unimported.Proofs.ConfigOption
import Unimported.Proofs.EffectiveConfig
