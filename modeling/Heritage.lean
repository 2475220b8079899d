import Heritage.C.Expr
import Heritage.C.File
import Heritage.C.Function
import Heritage.C.Layout
import Heritage.C.Name
import Heritage.C.Path
import Heritage.C.Stmt
import Heritage.C.Struct
import Heritage.Compilation
import Heritage.Env
import Heritage.Inheritance.Ancestry
import Heritage.Inheritance.Flatten
import Heritage.Inheritance.Linearize
import Heritage.Inheritance.ParentsFirst
import Heritage.Inheritance.Resolve
import Heritage.Issue
import Heritage.Log
import Heritage.Options
import Heritage.Outcome
import Heritage.Pipeline
import Heritage.Proofs.Acceptance
import Heritage.Proofs.AddedClass
import Heritage.Proofs.Agreement
import Heritage.Proofs.AmbiguityRoots
import Heritage.Proofs.Ancestry
import Heritage.Proofs.Assembly
import Heritage.Proofs.Assignability
import Heritage.Proofs.Binding
import Heritage.Proofs.Bodies
import Heritage.Proofs.ClassOrder
import Heritage.Proofs.Collecting
import Heritage.Proofs.Collection
import Heritage.Proofs.Collisions
import Heritage.Proofs.Contents
import Heritage.Proofs.Conversions
import Heritage.Proofs.Cycles
import Heritage.Proofs.Declared
import Heritage.Proofs.Environment
import Heritage.Proofs.ExprTrees
import Heritage.Proofs.Extension
import Heritage.Proofs.FirstOccurrences
import Heritage.Proofs.Flattening
import Heritage.Proofs.Formed
import Heritage.Proofs.Functions
import Heritage.Proofs.Grammar
import Heritage.Proofs.Growth
import Heritage.Proofs.Idempotence
import Heritage.Proofs.Identifiers
import Heritage.Proofs.InPlace
import Heritage.Proofs.Indentation
import Heritage.Proofs.Independence
import Heritage.Proofs.Inferring
import Heritage.Proofs.IssueKinds
import Heritage.Proofs.LeftOpen
import Heritage.Proofs.Leftmost
import Heritage.Proofs.LexicalScope
import Heritage.Proofs.Limits
import Heritage.Proofs.LineBreaks
import Heritage.Proofs.Linearization
import Heritage.Proofs.Listing
import Heritage.Proofs.Lookup
import Heritage.Proofs.Marked
import Heritage.Proofs.Members
import Heritage.Proofs.NameFaults
import Heritage.Proofs.Names
import Heritage.Proofs.Nesting
import Heritage.Proofs.Origins
import Heritage.Proofs.Outline
import Heritage.Proofs.Owners
import Heritage.Proofs.ParentsFirst
import Heritage.Proofs.Parts
import Heritage.Proofs.Pipeline
import Heritage.Proofs.Positions
import Heritage.Proofs.ReadingBack
import Heritage.Proofs.Rearranged
import Heritage.Proofs.Recursion
import Heritage.Proofs.Redeclarations
import Heritage.Proofs.Refused
import Heritage.Proofs.Registered
import Heritage.Proofs.Registry
import Heritage.Proofs.Relocation
import Heritage.Proofs.RenamedBodies
import Heritage.Proofs.RenamedDeclarations
import Heritage.Proofs.Renaming
import Heritage.Proofs.Reporting
import Heritage.Proofs.Representation
import Heritage.Proofs.Requests
import Heritage.Proofs.Resolution
import Heritage.Proofs.Resolvable
import Heritage.Proofs.Resolving
import Heritage.Proofs.Rows
import Heritage.Proofs.ScopeTree
import Heritage.Proofs.Scoping
import Heritage.Proofs.Standing
import Heritage.Proofs.Taint
import Heritage.Proofs.Tokens
import Heritage.Proofs.Transport
import Heritage.Proofs.TreeView
import Heritage.Proofs.Turns
import Heritage.Proofs.Typing
import Heritage.Proofs.Unambiguous
import Heritage.Proofs.Walk
import Heritage.Proofs.WellFormed
import Heritage.Proofs.Writing
import Heritage.Report
import Heritage.Reporting.Collect
import Heritage.Reporting.Expr
import Heritage.Reporting.File
import Heritage.Reporting.Resolve
import Heritage.Reporting.Stmt
import Heritage.Span
import Heritage.Symbols.Basic
import Heritage.Symbols.Collect
import Heritage.Symbols.Declare
import Heritage.Symbols.Registry
import Heritage.Symbols.Table
import Heritage.Text.Quoted
import Heritage.Text.Unseen
import Heritage.Tree
import Heritage.Tree.Cursor
import Heritage.Tree.Node
import Heritage.Ty
import Heritage.Typing.Expr
import Heritage.Typing.Rules
