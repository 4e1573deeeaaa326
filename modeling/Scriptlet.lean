import Scriptlet.Main
import Scriptlet.Proofs.Console.Capacity
import Scriptlet.Proofs.Console.Fold
import Scriptlet.Proofs.Console.Readline
import Scriptlet.Proofs.Control.Signals
import Scriptlet.Proofs.Effects.OwnFrame
import Scriptlet.Proofs.Hash.Literal
import Scriptlet.Proofs.Heap.Counted
import Scriptlet.Proofs.Inspect.ReadBack
import Scriptlet.Proofs.Integer.Wraps
import Scriptlet.Proofs.Layout.Irrelevant
import Scriptlet.Proofs.Parser.Concatenate
import Scriptlet.Proofs.Parser.FirstError
import Scriptlet.Proofs.Parser.Located
import Scriptlet.Proofs.Parser.Nesting
import Scriptlet.Proofs.Recursion.Compose
import Scriptlet.Proofs.Render.Reparse
import Scriptlet.Proofs.Session.Calls
import Scriptlet.Proofs.Session.Comparisons
import Scriptlet.Proofs.Session.Identity
import Scriptlet.Proofs.Session.Registry
import Scriptlet.Proofs.Simulation.DeadNames
import Scriptlet.Proofs.Simulation.Split
import Scriptlet.Proofs.Token.Spaced
import Scriptlet.Session.Command
