import NetDial.Text.Basic
import NetDial.Text.Digits
import NetDial.Ip.Basic
import NetDial.Ip.Scan
import NetDial.Ip.Literal
import NetDial.Ip.Print
import NetDial.Ip.Scoped
import NetDial.Address.HostPort
import NetDial.Address.Path
import NetDial.Address.NetAddr
import NetDial.Address.AddrList
import NetDial.Network
import NetDial.Capability
import NetDial.Text.Unprintable
import NetDial.Text.Quoted
import NetDial.Error.Basic
import NetDial.Error.Chain
import NetDial.Address.Domain
import NetDial.Service
import NetDial.Filter.Basic
import NetDial.Filter.Policy
import NetDial.Time
import NetDial.Decimal.Binary64
import NetDial.Decimal.Shortest
import NetDial.Json.Basic
import NetDial.Json.Print
import NetDial.Json.Parse
import NetDial.Filter.PolicyJson
import NetDial.Decimal.Seconds
import NetDial.Settings
import NetDial.Resolver.Table
import NetDial.Keyed
import NetDial.Resolver.Cache
import NetDial.Resolver.Basic
import NetDial.Resolver.Lookup
import NetDial.Resolver.Traffic
import NetDial.Dial.Attempt
import NetDial.Resolver.Script
import NetDial.Session.Record
import NetDial.Session.Basic
import NetDial.Session.Clock
import NetDial.Session.Lookup
import NetDial.Dial.Error
import NetDial.Dial.Target
import NetDial.Dial.Connector
import NetDial.Dial.Race
import NetDial.Dial.Directory
import NetDial.Dial.Dialer
import NetDial.Dial.Describe
import NetDial.Proofs.Race.History
import NetDial.Proofs.Race.Conservation
import NetDial.Proofs.Race.Outcome
import NetDial.Proofs.Ip.Scan
import NetDial.Proofs.Ip.Ipv6Grammar
import NetDial.Proofs.Ip.Ipv6Reader
import NetDial.Proofs.Address.AddrList
import NetDial.Proofs.Session.Waiting
import NetDial.Proofs.Session.Reports
import NetDial.Proofs.Dial.Target
import NetDial.Proofs.Dial.Resolution
import NetDial.Proofs.Dial.Attempts
import NetDial.Proofs.Dial.Classification
import NetDial.Proofs.Dial.Deadline
import NetDial.Proofs.Dial.Timed
import NetDial.Proofs.Ip.DottedQuad
import NetDial.Proofs.Text.Numeral
import NetDial.Proofs.Ip.Ipv6Text
import NetDial.Proofs.Ip.Scoped
import NetDial.Proofs.Text.Bytes
import NetDial.Proofs.Address.HostPort
import NetDial.Proofs.Address.NetAddr
import NetDial.Proofs.Capability
import NetDial.Proofs.Service
import NetDial.Proofs.Dial.Settled
import NetDial.Proofs.Dial.Found
import NetDial.Proofs.Resolver.Settle
import NetDial.Proofs.Resolver.Layers
import NetDial.Proofs.Resolver.Journal
import NetDial.Proofs.Resolver.Freshness
import NetDial.Proofs.Resolver.Transparency
import NetDial.Proofs.Session.Traffic
import NetDial.Proofs.Dial.Reports
import NetDial.Proofs.Filter.Composition
import NetDial.Proofs.Session.Background
import NetDial.Proofs.Dial.Consultation
import NetDial.Proofs.Dial.LateLookup
import NetDial.Proofs.Filter.PolicyTree
import NetDial.Proofs.Filter.Quota
import NetDial.Proofs.Filter.Selection
import NetDial.Proofs.Filter.Survival
import NetDial.Proofs.Filter.Agreement
import NetDial.Proofs.Dial.Starvation
import NetDial.Proofs.Json.Scalars
import NetDial.Proofs.Json.RoundTrip
import NetDial.Proofs.Filter.PolicyText
import NetDial.Proofs.Address.Offsets
import NetDial.Proofs.Address.Domain
import NetDial.Proofs.Dial.HostClass
import NetDial.Proofs.Ip.ByIndex
import NetDial.Proofs.Ip.Checked
import NetDial.Proofs.Network
import NetDial.Proofs.Endpoint
import NetDial.Proofs.Error.Walk
import NetDial.Proofs.Error.Timeout
import NetDial.Proofs.Address.Homogeneous
import NetDial.Proofs.Resolver.Runs
import NetDial.Proofs.Resolver.Turns
import NetDial.Proofs.Resolver.Chains
import NetDial.Proofs.Ip.InPlace
import NetDial.Proofs.Ip.InBounds
