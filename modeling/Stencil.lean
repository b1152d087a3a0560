import Stencil.About
import Stencil.Session
import Stencil.Proofs.Hygiene
import Stencil.Proofs.Statement
import Stencil.Proofs.Visibility
import Stencil.Proofs.Inclusion
import Stencil.Proofs.Takeover
import Stencil.Proofs.Settlement
import Stencil.Proofs.Loadable
import Stencil.Proofs.Inputs
import Stencil.Proofs.CodeSize
import Stencil.Proofs.BlockTable
import Stencil.Proofs.Untaken
import Stencil.Proofs.IntConversion
import Stencil.Proofs.PathUpdates
import Stencil.Proofs.Publication
import Stencil.Proofs.Sequences
import Stencil.Proofs.Listing
import Stencil.Proofs.Grouping
