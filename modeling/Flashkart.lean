import Flashkart.Async.Logic
import Flashkart.Shop.Rules
import Flashkart.Shop.Frame
import Flashkart.Shop.Oversell
import Flashkart.Shop.Ledger
import Flashkart.Shop.Conserve
import Flashkart.Shop.FailedBuy
import Flashkart.Shop.Orders
import Flashkart.Shop.Charge
import Flashkart.Shop.Jobs
import Flashkart.Shop.Progress
import Flashkart.Shop.Announce
import Flashkart.Shop.Handoff
import Flashkart.Async.Sequential
import Flashkart.Shop.Linear
import Flashkart.Once
import Flashkart.Async.Typestate
import Flashkart.Auth.Routes
import Flashkart.Auth.Families
import Flashkart.Auth.Rotation
import Flashkart.Auth.Revocation
import Flashkart.Shop.Refund
import Flashkart.Async.Replay
import Flashkart.Attempt
import Flashkart.Reopen
import Flashkart.Agree
import Flashkart.Async.Serial
import Flashkart.Auth.Effects
import Flashkart.Auth.Acceptance
import Flashkart.Async.Clock
import Flashkart.RateLimit.TokenBucket
import Flashkart.RateLimit.Bound
import Flashkart.RateLimit.Advice
import Flashkart.Async.Echo
import Flashkart.Async.Fanout
import Flashkart.Async.Script
import Flashkart.Shop.Speaker
import Flashkart.Shop.Converge
import Flashkart.Shop.Stuck
import Flashkart.Shop.Sweep
import Flashkart.Shop.Fidelity
import Flashkart.Shop.Checkout
import Flashkart.Shop.Privacy
import Flashkart.Shop.Answers
import Flashkart.Async.Moments
import Flashkart.Wrap
import Flashkart.Shop.Listing
import Flashkart.Shop.Enqueue
import Flashkart.Shop.Attempts
import Flashkart.Shop.Delivery
import Flashkart.Shop.Compensation
import Flashkart.Shop.Exact
import Flashkart.Shop.Record
import Flashkart.Shop.Chain
import Flashkart.Shop.Told
import Flashkart.Shop.Holds
import Flashkart.Shop.Receipt
import Flashkart.Shop.Bulletin
import Flashkart.Web.App
import Flashkart.Auth.Access
import Flashkart.Web.Calls
import Flashkart.Web.Seamless
import Flashkart.Realtime.Socket
import Flashkart.Realtime.Feed
import Flashkart.Realtime.Page
import Flashkart.Auth.Register
