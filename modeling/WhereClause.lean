import WhereClause.Proofs.Outline
import WhereClause.Proofs.Runs
import WhereClause.Script.Run
import WhereClause.Proofs.Rendering
import WhereClause.Proofs.Collecting
import WhereClause.Proofs.Draft
import WhereClause.Proofs.Building
import WhereClause.Proofs.Reading
import WhereClause.Proofs.Walk
import WhereClause.Proofs.Compiling
import WhereClause.Proofs.Emptiness
import WhereClause.Proofs.Confinement
import WhereClause.Proofs.Formula
import WhereClause.Proofs.Members
import WhereClause.Proofs.Unambiguous
import WhereClause.Proofs.Mentions
import WhereClause.Proofs.Soundness
import WhereClause.Proofs.Settling
import WhereClause.Proofs.Moves
import WhereClause.Proofs.Making
import WhereClause.Proofs.Asking
import WhereClause.Proofs.Operations
import WhereClause.Proofs.Handouts
import WhereClause.Proofs.Freezing
import WhereClause.Proofs.Orders
import WhereClause.Proofs.Keeping
import WhereClause.Proofs.Totality
import WhereClause.Proofs.Templates
import WhereClause.Proofs.Sketches
import WhereClause.Proofs.Writings
import WhereClause.Proofs.Servings
import WhereClause.Proofs.Neatness
import WhereClause.Proofs.Upkeep
import WhereClause.Proofs.Tending
import WhereClause.Proofs.Calm
import WhereClause.Proofs.Outcomes
import WhereClause.Proofs.Accounts
import WhereClause.Proofs.Positions
import WhereClause.Proofs.Flaws
import WhereClause.Proofs.Substitution
import WhereClause.Proofs.Numbering
import WhereClause.Proofs.Renewals
import WhereClause.Proofs.Renaming
import WhereClause.Proofs.Explicit
import WhereClause.Proofs.Marks
import WhereClause.Proofs.Uses
import WhereClause.Proofs.Usage
import WhereClause.Proofs.Shortcut
import WhereClause.Proofs.ElementTypes
import WhereClause.Proofs.Halting
import WhereClause.Proofs.Straining
import WhereClause.Proofs.Failing
import WhereClause.Proofs.Fields
import WhereClause.Proofs.Levels
import WhereClause.Proofs.Enclosing
import WhereClause.Proofs.Comparing
import WhereClause.Proofs.Apart
import WhereClause.Proofs.Unlogged
import WhereClause.Proofs.Piecewise
import WhereClause.Proofs.Groups
import WhereClause.Proofs.Spellings
import WhereClause.Proofs.Surroundings
import WhereClause.Proofs.Partway
import WhereClause.Proofs.Minting
import WhereClause.Proofs.Respelling
import WhereClause.Proofs.Forthcoming
import WhereClause.Proofs.Reconfiguring
import WhereClause.Proofs.Options
import WhereClause.Proofs.Overrides
