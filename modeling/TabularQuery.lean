import TabularQuery.Engine
import TabularQuery.Program.Assembler
import TabularQuery.Program.Listing
import TabularQuery.Source.Delimited
import TabularQuery.Source.LineFile
import TabularQuery.Source.Memory
import TabularQuery.Proofs.ExprRun
import TabularQuery.Proofs.ExprBinding
import TabularQuery.Proofs.StandardMethods
import TabularQuery.Proofs.QueryRun
import TabularQuery.Proofs.Selection
import TabularQuery.Proofs.QueryBinding
import TabularQuery.Proofs.Generation
import TabularQuery.Proofs.SelectedRows
import TabularQuery.Proofs.Gathering
import TabularQuery.Proofs.GroupRun
import TabularQuery.Proofs.SetRun
import TabularQuery.Proofs.ProgramRun
import TabularQuery.Proofs.StatementBinding
import TabularQuery.Proofs.SoundGeneration
import TabularQuery.Proofs.Safety
import TabularQuery.Proofs.StackEffect
import TabularQuery.Proofs.GroupedRows
import TabularQuery.Proofs.Meaning
import TabularQuery.Proofs.StatementRun
import TabularQuery.Proofs.Outcomes
import TabularQuery.Proofs.SetOperations
import TabularQuery.Proofs.Rebinding
import TabularQuery.Proofs.Rewriting
import TabularQuery.Proofs.Independence
import TabularQuery.Proofs.MemoryTables
import TabularQuery.Proofs.Materialization
import TabularQuery.Proofs.Cancellation
import TabularQuery.Proofs.Consistency
import TabularQuery.Proofs.Termination
import TabularQuery.Proofs.Budget
import TabularQuery.Proofs.ClosedCode
import TabularQuery.Proofs.Printing
import TabularQuery.Proofs.Resolution
import TabularQuery.Proofs.JoinConditions
import TabularQuery.Proofs.Scoping
import TabularQuery.Proofs.SlotSharing
import TabularQuery.Proofs.RunFailures
import TabularQuery.Proofs.Wildcards
import TabularQuery.Proofs.FailedReads
import TabularQuery.Proofs.IndexLookups
import TabularQuery.Proofs.TokenSpans
import TabularQuery.Proofs.TokenPlaces
import TabularQuery.Proofs.DelimitedLines
import TabularQuery.Proofs.DelimitedFiles
import TabularQuery.Proofs.ListSearch
import TabularQuery.Proofs.MadeUpAliases
import TabularQuery.Proofs.JoinedTexts
import TabularQuery.Proofs.ListItems
import TabularQuery.Proofs.StoredRows
import TabularQuery.Proofs.Overloads
import TabularQuery.Proofs.IntegerArithmetic
import TabularQuery.Proofs.SourceLabels
import TabularQuery.Proofs.WrittenIntegers
import TabularQuery.Proofs.IntegerTexts
import TabularQuery.Proofs.ProcedureNames
import TabularQuery.Proofs.LabelResolution
