import Stencil.Node
import Stencil.Condition
import Stencil.Draft
import Stencil.Fault
import Stencil.Feed
import Stencil.Handover
import Stencil.Json
import Stencil.Json.Codec
import Stencil.Json.Template
import Stencil.Visit
import Stencil.Permit
import Stencil.Token
import Stencil.Proofs.Acceptance
import Stencil.Proofs.Blame
import Stencil.Proofs.Blanks
import Stencil.Proofs.Branches
import Stencil.Proofs.Canonical
import Stencil.Proofs.Completion
import Stencil.Proofs.Concatenation
import Stencil.Proofs.Conditions
import Stencil.Proofs.Conservative
import Stencil.Proofs.Decimal
import Stencil.Proofs.Dialogue
import Stencil.Proofs.Elif
import Stencil.Proofs.Enclosing
import Stencil.Proofs.FirstFault
import Stencil.Proofs.Handovers
import Stencil.Proofs.Histories
import Stencil.Proofs.Horizon
import Stencil.Proofs.Integers
import Stencil.Proofs.Judgement
import Stencil.Proofs.Keeps
import Stencil.Proofs.Layout
import Stencil.Proofs.LayoutAppend
import Stencil.Proofs.LayoutEnsures
import Stencil.Proofs.LayoutGives
import Stencil.Proofs.LayoutUnique
import Stencil.Proofs.Lexical
import Stencil.Proofs.LexicalFaults
import Stencil.Proofs.Outlook
import Stencil.Proofs.Passages
import Stencil.Proofs.Piece
import Stencil.Proofs.Places
import Stencil.Proofs.Reach
import Stencil.Proofs.Relocation
import Stencil.Proofs.RoundTrip
import Stencil.Proofs.Rounds
import Stencil.Proofs.ScanTags
import Stencil.Proofs.Scans
import Stencil.Proofs.Seam
import Stencil.Proofs.Sources
import Stencil.Proofs.Spelling
import Stencil.Proofs.Spots
import Stencil.Proofs.Texts
import Stencil.Proofs.Tiling
import Stencil.Proofs.Unplaced
import Stencil.Proofs.Upcoming
import Stencil.Proofs.Written
import Stencil.Reading
import Stencil.Reading.Grammar
import Stencil.Reading.Operand
import Stencil.Record
import Stencil.Render
import Stencil.Tag.Catalog
import Stencil.Tag.Program
import Stencil.Tag.Script
import Stencil.Text.Literal
import Stencil.Text.CharClass
import Stencil.Token.Scanner
import Stencil.Token.Lexeme
import Stencil.Token.Scan
import Stencil.Token.Tap
import Stencil.Transcript
import Stencil.Proofs.Literals
import Stencil.Proofs.Neighbours
import Stencil.Proofs.Verdicts
import Stencil.Proofs.Origins
import Stencil.Proofs.Shape
import Stencil.Proofs.Course
import Stencil.Proofs.Draws
import Stencil.Proofs.Visits
import Stencil.Proofs.Items
import Stencil.Proofs.Remains
import Stencil.Proofs.Shift
import Stencil.Proofs.Forms
import Stencil.Proofs.Lossless
import Stencil.Token.Meter
import Stencil.Proofs.Stages
import Stencil.Proofs.Measures
import Stencil.Proofs.Meters
