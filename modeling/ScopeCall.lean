import ScopeCall.Activation
import ScopeCall.Argument
import ScopeCall.Binding
import ScopeCall.CallSite
import ScopeCall.Callable
import ScopeCall.Chain
import ScopeCall.Closure
import ScopeCall.Context
import ScopeCall.Display
import ScopeCall.Error
import ScopeCall.Evaluation
import ScopeCall.FanOut
import ScopeCall.Heap
import ScopeCall.Invalidation
import ScopeCall.Invocation
import ScopeCall.Invoke
import ScopeCall.Layout
import ScopeCall.Linking
import ScopeCall.Liveness
import ScopeCall.Lookup
import ScopeCall.Matching
import ScopeCall.Name
import ScopeCall.Proofs.Abiding
import ScopeCall.Proofs.Accounting
import ScopeCall.Proofs.Advancing
import ScopeCall.Proofs.Agreeing
import ScopeCall.Proofs.Aligning
import ScopeCall.Proofs.Alike
import ScopeCall.Proofs.Arranging
import ScopeCall.Proofs.Bindings
import ScopeCall.Proofs.Caching
import ScopeCall.Proofs.Calling
import ScopeCall.Proofs.Chaining
import ScopeCall.Proofs.Closing
import ScopeCall.Proofs.Comparing
import ScopeCall.Proofs.Confining
import ScopeCall.Proofs.Converting
import ScopeCall.Proofs.Copying
import ScopeCall.Proofs.Counting
import ScopeCall.Proofs.Dedicating
import ScopeCall.Proofs.Delivering
import ScopeCall.Proofs.Detaching
import ScopeCall.Proofs.Discovering
import ScopeCall.Proofs.Dispatching
import ScopeCall.Proofs.Disturbing
import ScopeCall.Proofs.Entering
import ScopeCall.Proofs.Evaluating
import ScopeCall.Proofs.Evolving
import ScopeCall.Proofs.Fading
import ScopeCall.Proofs.Failing
import ScopeCall.Proofs.Forwarding
import ScopeCall.Proofs.Founding
import ScopeCall.Proofs.Framing
import ScopeCall.Proofs.Gathering
import ScopeCall.Proofs.Growing
import ScopeCall.Proofs.Hanging
import ScopeCall.Proofs.Inserting
import ScopeCall.Proofs.Installing
import ScopeCall.Proofs.Interning
import ScopeCall.Proofs.Listing
import ScopeCall.Proofs.Matching
import ScopeCall.Proofs.Mirroring
import ScopeCall.Proofs.Moving
import ScopeCall.Proofs.Nesting
import ScopeCall.Proofs.Opening
import ScopeCall.Proofs.Passing
import ScopeCall.Proofs.Placing
import ScopeCall.Proofs.Reachability
import ScopeCall.Proofs.Reaching
import ScopeCall.Proofs.Reading
import ScopeCall.Proofs.Recalling
import ScopeCall.Proofs.Refining
import ScopeCall.Proofs.Refusing
import ScopeCall.Proofs.Remembering
import ScopeCall.Proofs.Replicating
import ScopeCall.Proofs.Restarting
import ScopeCall.Proofs.Rewiring
import ScopeCall.Proofs.Running
import ScopeCall.Proofs.Runs
import ScopeCall.Proofs.Separating
import ScopeCall.Proofs.Serving
import ScopeCall.Proofs.Settling
import ScopeCall.Proofs.Shadowing
import ScopeCall.Proofs.Sharing
import ScopeCall.Proofs.Sparing
import ScopeCall.Proofs.Spending
import ScopeCall.Proofs.Staying
import ScopeCall.Proofs.Sweeping
import ScopeCall.Proofs.Tables
import ScopeCall.Proofs.Thinning
import ScopeCall.Proofs.Tidying
import ScopeCall.Proofs.Transparency
import ScopeCall.Proofs.Undoing
import ScopeCall.Proofs.Upgrading
import ScopeCall.Proofs.Walking
import ScopeCall.Proofs.Wrapping
import ScopeCall.Proofs.Writing
import ScopeCall.Reference
import ScopeCall.Scope
import ScopeCall.Script.Expression
import ScopeCall.Script.Operation.Basic
import ScopeCall.Script.Operation.Call
import ScopeCall.Script.Operation.Environment
import ScopeCall.Script.Operation.Plain
import ScopeCall.Script.Report
import ScopeCall.Script.Run
import ScopeCall.Script.Session
import ScopeCall.Script.Syntax
import ScopeCall.Store
import ScopeCall.Text.Combining
import ScopeCall.Text.Printable
import ScopeCall.Text.Quoted
import ScopeCall.Text.Shortest
import ScopeCall.Text.Unprintable
import ScopeCall.Value
